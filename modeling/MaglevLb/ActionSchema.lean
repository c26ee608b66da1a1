import MaglevLb.DesiredLanguage
import Mathlib.Data.List.TakeWhile

/-!
# Validation of actions

`validate_action` over parsed JSON, and the ids that it and `validate_desired` let
through. The test for a known action hashes the value it is given: a list or an
object ends it with a `TypeError`, before any error is reported.
-/
namespace MaglevLb.ActionSchema

open Schema DesiredLanguage

/-- The known actions, in the order of the message. -/
def actions : List String :=
  ["clear", "crash", "drain", "errors", "partition", "restart", "slow", "undrain"]

inductive Failure where
  | validation (errors : List Error)
  | type

/-- `factor` and `rate` are keys that can be absent, and `None` if refused. -/
structure Action where
  action : Json
  target : Option String
  factor : Option (Option ℚ)
  rate : Option (Option ℚ)

def isText (v : Json) (text : String) : Bool :=
  match v with
  | .str s => s = text
  | _ => false

/-- Membership in `ACTIONS`; `none` for a value that cannot be hashed. -/
def known? : Json → Option Bool
  | .arr _ => none
  | .obj _ => none
  | .str s => some (s ∈ actions)
  | _ => some false

def checkKnown (known : Bool) : List Error :=
  if known then []
  else [⟨"$.action", "must be one of ['clear', 'crash', 'drain', 'errors', 'partition', " ++
    "'restart', 'slow', 'undrain']"⟩]

/-- A number that belongs to one action only. -/
def parameter (doc : Members) (action : Json) (owner key : String) (default : Number)
    (lo hi : ℤ) : Checked (Option (Option ℚ)) :=
  if isText action owner then
    let val := number ("$." ++ key) (member doc key (.num default)) lo hi false
    ⟨some val.value, val.errors⟩
  else
    ⟨none, if (get? doc key).isSome then [⟨"$." ++ key, s!"only valid for '{owner}'"⟩] else []⟩

def factorOf (doc : Members) (action : Json) : Checked (Option (Option ℚ)) :=
  parameter doc action "slow" "factor" (.int 4) 1 50

def rateOf (doc : Members) (action : Json) : Checked (Option (Option ℚ)) :=
  parameter doc action "errors" "rate" (.float (3 / 10)) 0 1

def validateAction (doc : Json) : Except Failure Action :=
  let doc := obj "$" doc ["action", "target", "factor", "rate"]
  let action := member doc.value "action" .null
  match known? action with
  | none => .error .type
  | some known =>
      let target := idOf "$.target" (get? doc.value "target")
      let factor := factorOf doc.value action
      let rate := rateOf doc.value action
      let errors := doc.errors ++ checkKnown known ++ target.errors ++ factor.errors ++ rate.errors
      if errors = [] then .ok ⟨action, target.value, factor.value, rate.value⟩
      else .error (.validation errors)

/-! ### Valid actions -/

/-- A parameter in its range where the action has it, and absent elsewhere. -/
def Bounded (lo hi : ℤ) (has : Prop) (p : Option (Option ℚ)) : Prop :=
  has ∧ (∃ q : ℚ, p = some (some q) ∧ lo ≤ q ∧ q ≤ hi) ∨ ¬has ∧ p = none

structure Valid (a : Action) : Prop where
  known : ∃ name ∈ actions, a.action = .str name
  target : ∃ id, a.target = some id ∧ matchesId id = true
  factor : Bounded 1 50 (a.action = .str "slow") a.factor
  rate : Bounded 0 1 (a.action = .str "errors") a.rate

theorem isText_iff {v : Json} {text : String} : isText v text = true ↔ v = .str text := by
  cases v <;> simp [isText]

theorem parameter_bounded {doc : Members} {action : Json} {owner key : String} {default : Number}
    {lo hi : ℤ} (h : (parameter doc action owner key default lo hi).errors = []) :
    Bounded lo hi (action = .str owner) (parameter doc action owner key default lo hi).value := by
  unfold parameter at h ⊢
  split
  · next htext =>
      rw [if_pos htext] at h
      obtain ⟨q, hvalue, -, hlo, hhi, -⟩ := (number_decides _ lo hi false).of_clean h
      exact .inl ⟨isText_iff.mp htext, q, congrArg some hvalue, hlo, hhi⟩
  · next htext => exact .inr ⟨fun heq => htext (isText_iff.mpr heq), rfl⟩

theorem known?_eq_none {v : Json} :
    known? v = none ↔ (∃ items, v = .arr items) ∨ ∃ members, v = .obj members := by
  cases v <;> simp [known?]

theorem known?_eq_true {v : Json} (h : known? v = some true) : ∃ name ∈ actions, v = .str name := by
  cases v <;> simp_all [known?]

/-- An object whose action is a list or an object. -/
def Unhashable (doc : Json) : Prop :=
  ∃ n v, doc = .obj n ∧ get? n "action" = some v ∧
    ((∃ items, v = .arr items) ∨ ∃ members, v = .obj members)

theorem known?_member_eq_none (doc : Json) (path : String) (allowed : List String) :
    known? (member (obj path doc allowed).value "action" .null) = none ↔ Unhashable doc := by
  rw [known?_eq_none]
  cases doc with
  | obj n =>
      cases hv : get? n "action" <;> simp [obj, member, Unhashable, hv]
  | _ => simp [obj, member, get?, Unhashable]

theorem checkKnown_eq_nil {known : Bool} : checkKnown known = [] ↔ known = true := by
  cases known with
  | false => exact iff_of_false (List.cons_ne_nil _ _) Bool.false_ne_true
  | true => exact iff_of_true rfl rfl

theorem validateAction_of_unhashable {doc : Json} (h : Unhashable doc) :
    validateAction doc = .error .type := by
  rw [← known?_member_eq_none doc "$" ["action", "target", "factor", "rate"]] at h
  unfold validateAction
  dsimp only
  rw [h]

theorem validateAction_of_hashable {doc : Json} (h : ¬Unhashable doc) :
    (∃ a, validateAction doc = .ok a ∧ Valid a) ∨
      ∃ errors, validateAction doc = .error (.validation errors) ∧ errors ≠ [] := by
  rw [← known?_member_eq_none doc "$" ["action", "target", "factor", "rate"]] at h
  obtain ⟨known, hknown⟩ := Option.ne_none_iff_exists'.mp h
  unfold validateAction
  dsimp only
  rw [hknown]
  dsimp only
  split
  · next herrors =>
      simp only [List.append_eq_nil_iff, checkKnown_eq_nil] at herrors
      obtain ⟨⟨⟨⟨-, rfl⟩, htarget⟩, hfactor⟩, hrate⟩ := herrors
      obtain ⟨id, hid, -, hmatches⟩ := (idOf_decides _).of_clean htarget
      exact .inl ⟨_, rfl, known?_eq_true hknown, ⟨id, hid, hmatches⟩, parameter_bounded hfactor,
        parameter_bounded hrate⟩
  · next herrors => exact .inr ⟨_, rfl, herrors⟩

/-- Everything but an unhashable action ends in a valid action or a validation error,
and an unhashable one in a `TypeError`. -/
theorem validate_action_total_iff (doc : Json) :
    (((∃ a, validateAction doc = .ok a ∧ Valid a) ∨
        ∃ errors, validateAction doc = .error (.validation errors) ∧ errors ≠ []) ↔
      ¬Unhashable doc) ∧ (validateAction doc = .error .type ↔ Unhashable doc) := by
  by_cases h : Unhashable doc
  · have hresult := validateAction_of_unhashable h
    simp [hresult, h]
  · have hresult := validateAction_of_hashable h
    refine ⟨iff_of_true hresult h, iff_of_false ?_ h⟩
    intro htype
    simp [htype] at hresult

def slowdown : Json := .obj [("action", .str "slow"), ("target", .str "b1")]

def slowed : Action := ⟨.str "slow", some "b1", some (some 4), none⟩

theorem validate_action_total_slow : validateAction slowdown = .ok slowed ∧ Valid slowed := by
  have hok : validateAction slowdown = .ok slowed := rfl
  have hhashable : ¬Unhashable slowdown := by
    rintro ⟨n, v, heq, hget, hcontainer⟩
    cases heq
    cases hget
    simp at hcontainer
  rcases (validate_action_total_iff slowdown).1.mpr hhashable with ⟨a, ha, hvalid⟩ | ⟨_, herror, -⟩
  · rw [hok] at ha
    cases ha
    exact ⟨hok, hvalid⟩
  · rw [hok] at herror
    cases herror

theorem listed_action_raises :
    validateAction (.obj [("action", .arr []), ("target", .str "b1")]) = .error .type := rfl

/-! ### Safe ids -/

def SafeChar (c : Char) : Prop :=
  'A' ≤ c ∧ c ≤ 'Z' ∨ 'a' ≤ c ∧ c ≤ 'z' ∨ '0' ≤ c ∧ c ≤ '9' ∨ c = '_' ∨ c = '-'

instance : DecidablePred SafeChar := fun _ => inferInstanceAs (Decidable (_ ∨ _))

def Safe (id : String) : Prop :=
  (1 ≤ id.toList.length ∧ id.toList.length ≤ 64) ∧ ∀ c ∈ id.toList, SafeChar c

theorem isIdChar_iff {c : Char} : isIdChar c = true ↔ SafeChar c := by
  have hupper : c.isUpper = true ↔ 'A' ≤ c ∧ c ≤ 'Z' := decide_eq_true_iff
  have hlower : c.isLower = true ↔ 'a' ≤ c ∧ c ≤ 'z' :=
    Bool.and_eq_true_iff.trans (and_congr decide_eq_true_iff decide_eq_true_iff)
  have hdigit : c.isDigit = true ↔ '0' ≤ c ∧ c ≤ '9' :=
    Bool.and_eq_true_iff.trans (and_congr decide_eq_true_iff decide_eq_true_iff)
  have halphanum : c.isAlphanum = ((c.isUpper || c.isLower) || c.isDigit) := rfl
  rw [isIdChar, halphanum]
  simp only [Bool.or_eq_true, hupper, hlower, hdigit, decide_eq_true_eq, or_assoc, SafeChar]

/-- The text of an id is safe, up to a newline at its end. -/
theorem matchesId_cases {id : String} (h : matchesId id = true) :
    ∃ body : List Char, (1 ≤ body.length ∧ body.length ≤ 64) ∧ (∀ c ∈ body, SafeChar c) ∧
      (id.toList = body ∨ id.toList = body ++ ['\n']) := by
  simp only [matchesId, Bool.and_eq_true, Bool.or_eq_true, decide_eq_true_eq] at h
  obtain ⟨hlength, hrest⟩ := h
  have hsplit := List.takeWhile_append_dropWhile (p := isIdChar) (l := id.toList)
  refine ⟨id.toList.takeWhile isIdChar, hlength, fun c hc => ?_, ?_⟩
  · exact isIdChar_iff.mp (List.mem_takeWhile_imp hc)
  · rcases hrest with hrest | hrest
    · rw [hrest, List.append_nil] at hsplit
      exact .inl hsplit.symm
    · rw [hrest] at hsplit
      exact .inr hsplit.symm

theorem not_safe_of_newline {id : String} (h : '\n' ∈ id.toList) : ¬Safe id := by
  intro hid
  exact absurd (hid.2 '\n' h) (by decide)

/-- An accepted id is safe unless it ends with a newline. -/
theorem safe_iff_of_matchesId {id : String} (h : matchesId id = true) :
    Safe id ↔ id.toList.getLast? ≠ some '\n' := by
  obtain ⟨body, hlength, hsafe, heq | heq⟩ := matchesId_cases h
  · rw [Safe, heq]
    refine iff_of_true ⟨hlength, hsafe⟩ fun hlast => ?_
    exact absurd (hsafe _ (List.mem_of_getLast? hlast)) (by decide)
  · refine iff_of_false (not_safe_of_newline ?_) ?_
    · rw [heq]
      exact List.mem_append_right _ List.mem_cons_self
    · rw [heq]
      simp

theorem validateAction_valid {doc : Json} {a : Action} (h : validateAction doc = .ok a) :
    Valid a := by
  have hhashable : ¬Unhashable doc := by
    intro hun
    rw [validateAction_of_unhashable hun] at h
    cases h
  rcases validateAction_of_hashable hhashable with ⟨b, hb, hvalid⟩ | ⟨errors, herror, -⟩
  · rw [h] at hb
    cases hb
    exact hvalid
  · rw [h] at herror
    cases herror

/-- Every id of an accepted document, and the target of an accepted action, is safe
exactly if it does not end with a newline. -/
theorem accepted_ids_safe_iff (doc : Json) :
    (∀ canvas, validateDesired doc = .ok canvas →
      (∃ r, Means doc r ∧ r.canvas = canvas) ∧
        ∀ r, Means doc r → ∀ id ∈ r.ids, (Safe id ↔ id.toList.getLast? ≠ some '\n')) ∧
      ∀ a, validateAction doc = .ok a →
        ∃ id, a.target = some id ∧ (Safe id ↔ id.toList.getLast? ≠ some '\n') := by
  refine ⟨fun canvas hok => ⟨?_, fun r hr id hid => ?_⟩, fun a hok => ?_⟩
  · obtain ⟨r, hr⟩ := means_of_validateDesired hok
    rw [validateDesired_of_means hr, Except.ok.injEq] at hok
    exact ⟨r, hr, hok⟩
  · exact safe_iff_of_matchesId (matchesId_of_mem_ids hr hid)
  · obtain ⟨id, htarget, hmatches⟩ := (validateAction_valid hok).target
    exact ⟨id, htarget, safe_iff_of_matchesId hmatches⟩

theorem accepted_ids_safe_slow : ∃ id, slowed.target = some id ∧ Safe id := by
  obtain ⟨id, htarget, hsafe⟩ := (accepted_ids_safe_iff slowdown).2 slowed rfl
  cases htarget
  exact ⟨_, rfl, hsafe.mpr (by decide)⟩

/-- A document with a newline at the end of its only id. -/
def newlineDoc : Json :=
  .obj [("schema", .str "l4mlb-live/1"), ("nodes", .obj [("lb", .str "lb\n")])]

theorem newline_ids_accepted :
    (validateDesired newlineDoc = .ok ⟨some "lb\n", ⟨[], [], false⟩⟩ ∧ ¬Safe "lb\n") ∧
      validateAction (.obj [("action", .str "crash"), ("target", .str "b1\n")]) =
        .ok ⟨.str "crash", some "b1\n", none, none⟩ ∧ ¬Safe "b1\n" :=
  ⟨⟨by decide +kernel, not_safe_of_newline (by simp)⟩, rfl, not_safe_of_newline (by simp)⟩

end MaglevLb.ActionSchema
