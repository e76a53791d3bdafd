import HashConditions.Proofs.Building
import HashConditions.Verification.Basic

/-!
# Verification as a list of requirements

A fulfillment is a tree, but what it requires of a message is a list: the limits of its prefixes and
the signatures of its leaves, depth first and from left to right (`requirements`).
**The tree is checked by going through the list** and stopping at the first requirement that is not
met (`check_eq_meetAll`), so nothing behind that requirement is asked of the provider, and what
stands before it has been asked in the order of the list.

A provider may answer by what it was asked before, so whether a requirement is met depends on the
checks made so far. `Requirement.outcome` and `Passes` carry them along; a requirement adds at most
one check. `ComesTo` says without any program what a list comes to: an answer, and the checks that
are asked for it.

## Main results

* `check_eq_meetAll` — the check of a tree is the check of its list
* `ComesTo.unique` — what a list comes to is determined
* `runFrom_meetAll` — a list is gone through up to the first requirement that is not met
* `verify_requirements` — what verification answers, and what it asks
-/

namespace HashConditions

namespace Verification

variable {p : Provider} {f : Fulfillment} {t : Trace}

/-! ### Requirements -/

/-- Something that a fulfillment requires to hold. -/
inductive Requirement
  /-- A message of the given length does not exceed a limit. -/
  | limit (length maxMessageLength : Nat)
  /-- The provider accepts the signature of a fulfillment of the given type. -/
  | signature (type : ConditionType) (check : SignatureCheck)

/-- What a requirement asks of the provider. -/
def Requirement.asks : Requirement → List SignatureCheck
  | limit .. => []
  | signature _ check => [check]

/-- Whether a requirement is met after the given checks, or how it fails. -/
def Requirement.outcome (p : Provider) (earlier : List SignatureCheck) :
    Requirement → Except Failure Bool
  | limit length maxMessageLength =>
    if maxMessageLength < length then .error (.invalid (.messageTooLong length maxMessageLength))
    else .ok true
  | signature _ check => (p.answer earlier check).mapError .provider

/-- All requirements of a list are met one after the other, where the given checks come first. -/
def Passes (p : Provider) : List SignatureCheck → List Requirement → Prop
  | _, [] => True
  | earlier, r :: rs => r.outcome p earlier = .ok true ∧ Passes p (earlier ++ r.asks) rs

/-- What a list of requirements comes to after the given checks: an answer, and what is asked of the
provider for it. Either all requirements are met, or the first one that is not decides. -/
inductive ComesTo (p : Provider) (earlier : List SignatureCheck) :
    List Requirement → Except Failure Bool → List SignatureCheck → Prop
  | met {rs : List Requirement} : Passes p earlier rs →
      ComesTo p earlier rs (.ok true) (rs.flatMap Requirement.asks)
  | unmet (before : List Requirement) (r : Requirement) (after : List Requirement)
      {answer : Except Failure Bool} : Passes p earlier before →
      r.outcome p (earlier ++ before.flatMap Requirement.asks) = answer → answer ≠ .ok true →
      ComesTo p earlier (before ++ r :: after) answer ((before ++ [r]).flatMap Requirement.asks)

mutual

/-- What a fulfillment requires of a message, depth first. A prefix is put in front of the message
that reaches it, for its subfulfillment only. -/
def requirements : Fulfillment → Bytes → List Requirement
  | .preimage .., _ => []
  | .prefixed lead maxMessageLength sub _, message =>
    .limit message.length maxMessageLength :: requirements sub (lead ++ message)
  | .threshold _ subfulfillments _, message => requirementsAll subfulfillments message
  | .rsa modulus exponent signature _, message =>
    [.signature .rsaSha256 (.rsa modulus exponent message signature)]
  | .ed25519 publicKey signature _, message =>
    [.signature .ed25519Sha256 (.ed25519 publicKey message signature)]

/-- What several fulfillments require of one message. -/
def requirementsAll : List Fulfillment → Bytes → List Requirement
  | [], _ => []
  | f :: fs, message => requirements f message ++ requirementsAll fs message

end

/-! ### Going through a list -/

/-- Checks one requirement. -/
def Requirement.meet (p : Provider) : Requirement → Verification Bool
  | limit length maxMessageLength =>
    if maxMessageLength < length then
      throw (.invalid (.messageTooLong length maxMessageLength))
    else return true
  | signature type check => checkSignature p type check

/-- Checks requirements up to the first that is not met. -/
def meetAll (p : Provider) : List Requirement → Verification Bool
  | [] => return true
  | r :: rs => do
    if ← r.meet p then meetAll p rs else return false

theorem meetAll_singleton (r : Requirement) : meetAll p [r] = r.meet p := by
  have last : ∀ met : Bool, (if met then meetAll p [] else return false) = pure met := by
    intro met
    cases met with
    | true => rfl
    | false => rfl
  rw [meetAll, bind_congr last, bind_pure]

theorem meetAll_append (rs ss : List Requirement) :
    meetAll p (rs ++ ss) = do if ← meetAll p rs then meetAll p ss else return false := by
  induction rs with
  | nil => rw [List.nil_append, meetAll, pure_bind, if_pos rfl]
  | cons r rs ih =>
    rw [List.cons_append, meetAll, meetAll, ih, bind_assoc]
    refine bind_congr fun met => ?_
    cases met with
    | true => rfl
    | false => rfl

mutual

/-- **The tree is checked by going through the list.** -/
theorem check_eq_meetAll : ∀ (f : Fulfillment) (message : Bytes),
    check p f message = meetAll p (requirements f message)
  | .preimage .., _ => rfl
  | .prefixed lead maxMessageLength sub _, message => by
    rw [check, requirements, meetAll, check_eq_meetAll sub, Requirement.meet]
    split
    · rfl
    · rfl
  | .threshold _ subfulfillments _, message => by
    rw [check, requirements, checkAll_eq_meetAll subfulfillments]
  | .rsa .., _ => by
    rw [check, requirements, meetAll_singleton, Requirement.meet]
  | .ed25519 .., _ => by
    rw [check, requirements, meetAll_singleton, Requirement.meet]

theorem checkAll_eq_meetAll : ∀ (fs : List Fulfillment) (message : Bytes),
    checkAll p fs message = meetAll p (requirementsAll fs message)
  | [], _ => rfl
  | f :: fs, message => by
    rw [checkAll, requirementsAll, meetAll_append, check_eq_meetAll f, checkAll_eq_meetAll fs]

end

/-! ### How far the list is gone through -/

theorem runFrom_bind_of_ok {α β : Type} {v : Verification α} {w : α → Verification β}
    {t t' : Trace} {a : α} (h : runFrom t v = (.ok a, t')) :
    runFrom t (v >>= w) = runFrom t' (w a) := by
  rw [runFrom] at h
  cases hv : v t with
  | ok b s =>
    have step : (v >>= w) t = w b s := by
      show EStateM.bind v w t = w b s
      rw [EStateM.bind, hv]
    rw [hv] at h
    cases h
    rw [runFrom, step, runFrom]
  | error why s =>
    rw [hv] at h
    cases h

theorem runFrom_bind_of_error {α β : Type} {v : Verification α} {w : α → Verification β}
    {t t' : Trace} {why : Failure} (h : runFrom t v = (.error why, t')) :
    runFrom t (v >>= w) = (.error why, t') := by
  rw [runFrom] at h
  cases hv : v t with
  | ok b s =>
    rw [hv] at h
    cases h
  | error e s =>
    have step : (v >>= w) t = .error e s := by
      show EStateM.bind v w t = .error e s
      rw [EStateM.bind, hv]
    rw [hv] at h
    cases h
    rw [runFrom, step]

theorem runFrom_ask (p : Provider) (check : SignatureCheck) (t : Trace) :
    runFrom t (ask p check) =
      ((p.answer t.checks check).mapError .provider, ⟨t.checks ++ [check], t.notes⟩) := by
  have current : runFrom t get = (.ok t, t) := rfl
  have added : runFrom t (modify fun t : Trace => { t with checks := t.checks ++ [check] }) =
      (.ok (), ⟨t.checks ++ [check], t.notes⟩) := rfl
  rw [ask, runFrom_bind_of_ok current, runFrom_bind_of_ok added]
  cases p.answer t.checks check with
  | ok valid => rfl
  | error text => rfl

/-- A signature is checked by one question, and a rejection is noted besides. -/
theorem runFrom_checkSignature (p : Provider) (type : ConditionType) (check : SignatureCheck)
    (t : Trace) :
    ∃ notes, runFrom t (checkSignature p type check) =
      ((p.answer t.checks check).mapError .provider, ⟨t.checks ++ [check], notes⟩) := by
  have asked := runFrom_ask p check t
  rw [checkSignature]
  cases hanswer : p.answer t.checks check with
  | error text =>
    rw [hanswer] at asked
    exact ⟨t.notes, runFrom_bind_of_error asked⟩
  | ok valid =>
    rw [hanswer] at asked
    rw [runFrom_bind_of_ok asked]
    cases valid with
    | true => exact ⟨t.notes, rfl⟩
    | false => exact ⟨t.notes ++ [.signatureRejected type], rfl⟩

/-- One requirement has its outcome, and leaves what it asks in the trace. -/
theorem runFrom_meet (p : Provider) (r : Requirement) (t : Trace) :
    ∃ notes, runFrom t (r.meet p) = (r.outcome p t.checks, ⟨t.checks ++ r.asks, notes⟩) := by
  cases r with
  | limit length maxMessageLength =>
    refine ⟨t.notes, ?_⟩
    rw [Requirement.meet, Requirement.outcome, Requirement.asks, List.append_nil]
    split
    · rfl
    · rfl
  | signature type check => exact runFrom_checkSignature p type check t

theorem comesTo_nil {earlier asked : List SignatureCheck} {answer : Except Failure Bool} :
    ComesTo p earlier [] answer asked ↔ answer = .ok true ∧ asked = [] := by
  constructor
  · intro h
    generalize hrs : ([] : List Requirement) = rs at h
    cases h with
    | met _ =>
      subst hrs
      exact ⟨rfl, rfl⟩
    | unmet before r after =>
      exact absurd hrs.symm (List.append_ne_nil_of_right_ne_nil _ (List.cons_ne_nil _ _))
  · rintro ⟨rfl, rfl⟩
    exact .met trivial

/-- The first requirement decides, unless it is met. -/
theorem comesTo_cons {earlier asked : List SignatureCheck} {answer : Except Failure Bool}
    {r : Requirement} {rs : List Requirement} :
    ComesTo p earlier (r :: rs) answer asked ↔
      (r.outcome p earlier = .ok true ∧
        ∃ rest, ComesTo p (earlier ++ r.asks) rs answer rest ∧ asked = r.asks ++ rest) ∨
      (r.outcome p earlier = answer ∧ answer ≠ .ok true ∧ asked = r.asks) := by
  constructor
  · intro h
    generalize hrs : r :: rs = all at h
    cases h with
    | met passes =>
      subst hrs
      exact .inl ⟨passes.1, _, .met passes.2, List.flatMap_cons⟩
    | unmet before s after passes fails other =>
      cases before with
      | nil =>
        obtain ⟨rfl, rfl⟩ := List.cons.inj hrs
        rw [List.flatMap_nil, List.append_nil] at fails
        exact .inr ⟨fails, other, List.flatMap_singleton _ _⟩
      | cons first before =>
        obtain ⟨rfl, rfl⟩ := List.cons.inj hrs
        rw [List.flatMap_cons, ← List.append_assoc] at fails
        exact .inl ⟨passes.1, _, .unmet before s after passes.2 fails other, List.flatMap_cons⟩
  · rintro (⟨met, rest, h, rfl⟩ | ⟨fails, other, rfl⟩)
    · cases h with
      | met passes => exact .met ⟨met, passes⟩
      | unmet before s after passes fails other =>
        rw [List.append_assoc, ← List.flatMap_cons] at fails
        exact .unmet (r :: before) s after ⟨met, passes⟩ fails other
    · have last : r.outcome p (earlier ++ [].flatMap Requirement.asks) = answer := by
        rw [List.flatMap_nil, List.append_nil]
        exact fails
      rw [← List.flatMap_singleton Requirement.asks r]
      exact .unmet [] r rs trivial last other

/-- What a list of requirements comes to is determined by the provider. -/
theorem ComesTo.unique {rs : List Requirement} {earlier asked asked' : List SignatureCheck}
    {answer answer' : Except Failure Bool} (h : ComesTo p earlier rs answer asked)
    (h' : ComesTo p earlier rs answer' asked') : answer = answer' ∧ asked = asked' := by
  induction rs generalizing earlier asked asked' with
  | nil =>
    obtain ⟨rfl, rfl⟩ := comesTo_nil.mp h
    obtain ⟨rfl, rfl⟩ := comesTo_nil.mp h'
    exact ⟨rfl, rfl⟩
  | cons r rs ih =>
    obtain ⟨met, rest, tail, rfl⟩ | ⟨fails, other, rfl⟩ := comesTo_cons.mp h
    · obtain ⟨-, rest', tail', rfl⟩ | ⟨fails, other, -⟩ := comesTo_cons.mp h'
      · obtain ⟨rfl, rfl⟩ := ih tail tail'
        exact ⟨rfl, rfl⟩
      · exact absurd (fails.symm.trans met) other
    · obtain ⟨met, -⟩ | ⟨fails', -, rfl⟩ := comesTo_cons.mp h'
      · exact absurd (fails.symm.trans met) other
      · exact ⟨fails.symm.trans fails', rfl⟩

/-- **A list is gone through up to the first requirement that is not met.** -/
theorem runFrom_meetAll (p : Provider) (rs : List Requirement) (t : Trace) :
    ∃ answer asked notes, ComesTo p t.checks rs answer asked ∧
      runFrom t (meetAll p rs) = (answer, ⟨t.checks ++ asked, notes⟩) := by
  induction rs generalizing t with
  | nil =>
    refine ⟨.ok true, [], t.notes, comesTo_nil.mpr ⟨rfl, rfl⟩, ?_⟩
    rw [List.append_nil]
    rfl
  | cons r rs ih =>
    obtain ⟨notes, met⟩ := runFrom_meet p r t
    by_cases passes : r.outcome p t.checks = .ok true
    · obtain ⟨answer, asked, notes', comes, run⟩ := ih ⟨t.checks ++ r.asks, notes⟩
      have all := comesTo_cons.mpr (.inl ⟨passes, asked, comes, rfl⟩)
      refine ⟨answer, r.asks ++ asked, notes', all, ?_⟩
      rw [passes] at met
      rw [meetAll, runFrom_bind_of_ok met, ← List.append_assoc]
      exact run
    · refine ⟨_, r.asks, notes, comesTo_cons.mpr (.inr ⟨rfl, passes, rfl⟩), ?_⟩
      rw [meetAll]
      cases houtcome : r.outcome p t.checks with
      | error why =>
        rw [houtcome] at met
        exact runFrom_bind_of_error met
      | ok valid =>
        rw [houtcome] at met
        rw [runFrom_bind_of_ok met]
        cases valid with
        | true => exact absurd houtcome passes
        | false => rfl

/-! ### Verification -/

/-- A fulfillment that builders make is checked against its own condition. -/
theorem verify_self (made : f.Constructible) (message : Bytes) :
    verify p f f.condition message = check p f message := by
  rw [verify, if_pos made.condition_spec.1, if_pos rfl]

/-- **What verification answers, and what it asks.** A condition of another type is a failure and
another condition of the type is refused, without a question. Otherwise all requirements are met, or
the first one that is not decides; the provider is asked what they ask up to there. -/
theorem verify_requirements (made : f.Constructible) (p : Provider) (c : Condition)
    (message : Bytes) (t : Trace) :
    (c.type ≠ f.type →
      runFrom t (verify p f c message) = (.error (.mismatch (.types f.type c.type)), t)) ∧
    (c.type = f.type → c ≠ f.condition →
      ∃ notes, runFrom t (verify p f c message) = (.ok false, ⟨t.checks, notes⟩)) ∧
    (c = f.condition →
      ∃ answer asked notes, ComesTo p t.checks (requirements f message) answer asked ∧
        runFrom t (verify p f c message) = (answer, ⟨t.checks ++ asked, notes⟩)) := by
  refine ⟨?_, ?_, ?_⟩
  · intro other
    rw [verify, if_neg other]
    rfl
  · intro same other
    rw [verify, if_pos same, if_neg (Ne.symm other)]
    exact ⟨_, rfl⟩
  · rintro rfl
    rw [verify_self made, check_eq_meetAll]
    exact runFrom_meetAll p (requirements f message) t

/-- A signature behind two prefixes is rejected: the provider is asked once, about the message with
both prefixes in front of it, the inner one first. -/
theorem verify_requirements_rejected :
    ∃ f : Fulfillment, f.Constructible ∧
      ∃ notes, runFrom .empty (verify (.scripted [.ok false]) f f.condition [3]) =
        (.ok false, ⟨[.ed25519 (List.replicate 32 0) [2, 1, 3] (List.replicate 64 0)], notes⟩) := by
  have built : ((Fulfillment.ofPublicKey (List.replicate 32 0) (List.replicate 64 0) >>= fun leaf =>
      Fulfillment.ofPrefix [2] 9 leaf >>= Fulfillment.ofPrefix [1] 9).toOption.map
        Fulfillment.type) = some .prefixSha256 := by
    decide +kernel
  obtain ⟨f, hf, -⟩ := exists_ok_of_map_toOption built
  obtain ⟨leaf, hleaf, h⟩ := bind_eq_ok_iff.mp hf
  obtain ⟨inner, hinner, houter⟩ := bind_eq_ok_iff.mp h
  have made : f.Constructible := .prefixed (.prefixed (.ed25519 hleaf) hinner) houter
  refine ⟨f, made, ?_⟩
  obtain ⟨answer, asked, notes, comes, run⟩ :=
    (verify_requirements made (.scripted [.ok false]) f.condition [3] .empty).2.2 rfl
  obtain ⟨-, -, c, -, rfl⟩ := Fulfillment.ofPublicKey_eq_ok_iff.mp hleaf
  obtain ⟨c₁, -, rfl⟩ := Fulfillment.ofPrefix_eq_ok_iff.mp hinner
  obtain ⟨c₂, -, rfl⟩ := Fulfillment.ofPrefix_eq_ok_iff.mp houter
  -- Both limits are met, and the signature is not.
  obtain ⟨-, _, comes, rfl⟩ | ⟨rfl, other, -⟩ := comesTo_cons.mp comes
  · obtain ⟨-, _, comes, rfl⟩ | ⟨rfl, other, -⟩ := comesTo_cons.mp comes
    · obtain ⟨passes, -⟩ | ⟨rfl, -, rfl⟩ := comesTo_cons.mp comes
      · exact nomatch passes
      · exact ⟨notes, run⟩
    · exact absurd rfl other
  · exact absurd rfl other

end Verification

end HashConditions
