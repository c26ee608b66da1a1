import Mathlib.Algebra.Order.Ring.Nat
import Mathlib.Data.List.Basic
import Mathlib.Data.List.TakeWhile
import Mathlib.Data.Int.Order.Basic

/-!
# Text made of lines, labels and numbers

Operations on text as Python has them, for ASCII text: splitting into lines and
at a character, integer literals, the nearest double of an integer, and the
matches of the pattern that reads labels. Each comes with what it does on text
that was put together the other way.
-/
namespace MaglevLb.LineText

abbrev Text := List Char

/-- The characters of a literal. -/
theorem literal_toList {p : Char → Bool} {s : String} {l : Text} {k : ℕ} (hs : s = String.ofList l)
    (hchars : l.all p = true) (hlen : l.length ≤ k) :
    (∀ c ∈ s.toList, p c = true) ∧ s.toList.length ≤ k := by
  rw [hs, String.toList_ofList]
  exact ⟨List.all_eq_true.mp hchars, hlen⟩

theorem append_toList {p : Char → Bool} {s t : String} {j k : ℕ}
    (hs : (∀ c ∈ s.toList, p c = true) ∧ s.toList.length ≤ j)
    (ht : (∀ c ∈ t.toList, p c = true) ∧ t.toList.length ≤ k) :
    (∀ c ∈ (s ++ t).toList, p c = true) ∧ (s ++ t).toList.length ≤ j + k := by
  rw [String.toList_append, List.length_append]
  refine ⟨fun c hc => ?_, Nat.add_le_add hs.2 ht.2⟩
  exact (List.mem_append.mp hc).elim (hs.1 c) (ht.1 c)

/-! ### Lines -/

/-- The characters at which `str.splitlines` ends a line. -/
def isLineBreak (c : Char) : Bool :=
  (10 ≤ c.toNat && c.toNat ≤ 13) || (28 ≤ c.toNat && c.toNat ≤ 30) || c.toNat = 133 ||
    c.toNat = 8232 || c.toNat = 8233

/-- `str.splitlines`, with the line so far. -/
def splitLinesFrom (line : Text) : Text → List Text
  | [] => if line = [] then [] else [line]
  | '\r' :: '\n' :: s => line :: splitLinesFrom [] s
  | c :: s =>
      if isLineBreak c then line :: splitLinesFrom [] s else splitLinesFrom (line ++ [c]) s

def splitLines : Text → List Text := splitLinesFrom []

/-- The text of some lines, each with its end. -/
def joinLines (ls : List Text) : Text := ls.flatMap (· ++ ['\n'])

theorem splitLinesFrom_append {text : Text} (h : ∀ c ∈ text, isLineBreak c = false)
    (line rest : Text) :
    splitLinesFrom line (text ++ rest) = splitLinesFrom (line ++ text) rest := by
  induction text generalizing line with
  | nil => rw [List.nil_append, List.append_nil]
  | cons c text ih =>
      have hc := h c List.mem_cons_self
      have hr : c ≠ '\r' := by
        rintro rfl
        cases hc
      rw [List.cons_append, splitLinesFrom, if_neg (by simp [hc]),
        ih fun x hx => h x (List.mem_cons_of_mem _ hx), List.append_assoc]
      · rfl
      · intro s he _
        exact hr he

theorem splitLines_joinLines {ls : List Text} (h : ∀ l ∈ ls, ∀ c ∈ l, isLineBreak c = false) :
    splitLines (joinLines ls) = ls := by
  induction ls with
  | nil => rfl
  | cons l ls ih =>
      have hline : splitLinesFrom l ('\n' :: joinLines ls) = l :: splitLines (joinLines ls) := by
        rw [splitLinesFrom, if_pos (by decide), splitLines]
        intro s he
        cases he
      rw [joinLines, List.flatMap_cons, List.append_assoc, splitLines,
        splitLinesFrom_append (h l List.mem_cons_self), List.nil_append, List.singleton_append,
        ← joinLines, hline, ih fun x hx => h x (List.mem_cons_of_mem _ hx)]

theorem joinLines_append (ls ls' : List Text) :
    joinLines (ls ++ ls') = joinLines ls ++ joinLines ls' :=
  List.flatMap_append

theorem length_joinLines_le {ls : List Text} {k : ℕ} (h : ∀ l ∈ ls, l.length ≤ k) :
    (joinLines ls).length ≤ ls.length * (k + 1) := by
  induction ls with
  | nil => exact Nat.zero_le _
  | cons l ls ih =>
      have hl := h l List.mem_cons_self
      have hls := ih fun x hx => h x (List.mem_cons_of_mem _ hx)
      rw [joinLines, List.flatMap_cons, List.length_append, List.length_append,
        List.length_singleton, ← joinLines, List.length_cons, Nat.succ_mul]
      omega

/-! ### Splitting at a character -/

/-- `str.rsplit(sep, 1)`; `none` when there is nothing to split at. -/
def splitLast (sep : Char) : Text → Option (Text × Text)
  | [] => none
  | c :: s =>
      match splitLast sep s with
      | some (before, after) => some (c :: before, after)
      | none => if c = sep then some ([], s) else none

/-- `str.split(sep, 1)`; `none` when there is nothing to split at. -/
def splitFirst (sep : Char) : Text → Option (Text × Text)
  | [] => none
  | c :: s =>
      if c = sep then some ([], s)
      else (splitFirst sep s).map fun p => (c :: p.1, p.2)

variable {sep : Char} {before after : Text}

theorem splitLast_of_notMem (h : sep ∉ after) : splitLast sep after = none := by
  induction after with
  | nil => rfl
  | cons c s ih =>
      rw [List.mem_cons, not_or] at h
      rw [splitLast, ih h.2]
      exact if_neg (Ne.symm h.1)

theorem splitLast_append (h : sep ∉ after) :
    splitLast sep (before ++ sep :: after) = some (before, after) := by
  induction before with
  | nil =>
      rw [List.nil_append, splitLast, splitLast_of_notMem h]
      exact if_pos rfl
  | cons c s ih => rw [List.cons_append, splitLast, ih]

theorem splitFirst_of_notMem (h : sep ∉ before) : splitFirst sep before = none := by
  induction before with
  | nil => rfl
  | cons c s ih =>
      rw [List.mem_cons, not_or] at h
      rw [splitFirst, if_neg (Ne.symm h.1), ih h.2]
      rfl

theorem splitFirst_append (h : sep ∉ before) :
    splitFirst sep (before ++ sep :: after) = some (before, after) := by
  induction before with
  | nil => exact if_pos rfl
  | cons c s ih =>
      rw [List.mem_cons, not_or] at h
      rw [List.cons_append, splitFirst, if_neg (Ne.symm h.1), ih h.2]
      rfl

/-! ### Numbers -/

def natText (n : ℕ) : Text := Nat.toDigits 10 n

def intText (z : ℤ) : Text := if z < 0 then '-' :: natText z.natAbs else natText z.natAbs

def natLiteral (s : Text) : Option ℕ :=
  if s ≠ [] ∧ s.all Char.isDigit then some (Nat.ofDigitChars 10 s 0) else none

/-- `int` of a text, for plain decimal literals. -/
def intLiteral : Text → Option ℤ
  | '-' :: s => (natLiteral s).map fun n : ℕ => -(n : ℤ)
  | '+' :: s => (natLiteral s).map Int.ofNat
  | s => (natLiteral s).map Int.ofNat

/-- The double nearest to a natural number: exact below `2 ^ 53`, otherwise 53
bits, ties to even. -/
def nearestDouble (n : ℕ) : ℕ :=
  if n < 2 ^ 53 then n
  else
    let ulp := 2 ^ (n.log2 - 52)
    let q := n / ulp
    let r := n % ulp
    (if 2 * r < ulp ∨ 2 * r = ulp ∧ q % 2 = 0 then q else q + 1) * ulp

def toDouble (z : ℤ) : ℤ := z.sign * nearestDouble z.natAbs

/-- `float` of a text, for integer literals that do not overflow. -/
def floatLiteral (s : Text) : Option ℤ := (intLiteral s).map toDouble

theorem isDigit_of_mem_natText {n : ℕ} {c : Char} (h : c ∈ natText n) : c.isDigit = true :=
  Nat.isDigit_of_mem_toDigits (by decide) (by decide) h

theorem digit_toNat {c : Char} (h : c.isDigit = true) : 48 ≤ c.toNat ∧ c.toNat ≤ 57 := by
  simp only [Char.isDigit, Bool.and_eq_true, decide_eq_true_eq] at h
  exact ⟨UInt32.le_iff_toNat_le.mp h.1, UInt32.le_iff_toNat_le.mp h.2⟩

theorem natText_ne_nil (n : ℕ) : natText n ≠ [] := Nat.toDigits_ne_nil

theorem length_natText_le {n k : ℕ} (hk : 0 < k) (h : n < 10 ^ k) : (natText n).length ≤ k :=
  (Nat.length_toDigits_le_iff (by decide) hk).mpr h

theorem natLiteral_natText (n : ℕ) : natLiteral (natText n) = some n := by
  have hdigits : (natText n).all Char.isDigit = true :=
    List.all_eq_true.mpr fun c hc => isDigit_of_mem_natText hc
  rw [natLiteral, if_pos ⟨natText_ne_nil n, hdigits⟩, natText,
    Nat.ofDigitChars_toDigits (by decide) (by decide)]

theorem intLiteral_natText (n : ℕ) : intLiteral (natText n) = some (n : ℤ) := by
  have hread := natLiteral_natText n
  have hdigits : ∀ c ∈ natText n, c.isDigit = true := fun c hc => isDigit_of_mem_natText hc
  generalize natText n = s at hread hdigits
  -- a digit is no sign
  unfold intLiteral
  split
  · cases hdigits _ List.mem_cons_self
  · cases hdigits _ List.mem_cons_self
  · rw [hread]
    rfl

theorem intLiteral_intText (z : ℤ) : intLiteral (intText z) = some z := by
  unfold intText
  split
  · next hneg =>
      rw [intLiteral, natLiteral_natText, Option.map_some]
      refine congrArg some ?_
      omega
  · next hpos =>
      rw [intLiteral_natText]
      refine congrArg some ?_
      omega

theorem floatLiteral_intText (z : ℤ) : floatLiteral (intText z) = some (toDouble z) := by
  rw [floatLiteral, intLiteral_intText]
  rfl

theorem toDouble_ofNat {n : ℕ} (h : n < 2 ^ 53) : toDouble n = n := by
  rw [toDouble, nearestDouble, if_pos (by simpa using h), Int.sign_mul_natAbs]

theorem length_intText_le {z : ℤ} {k : ℕ} (hk : 0 < k) (hlow : -10 ^ k < z)
    (hhigh : z < 10 ^ (k + 1)) : (intText z).length ≤ k + 1 := by
  unfold intText
  split
  · next hneg =>
      have hdigits : (z.natAbs : ℤ) < 10 ^ k := by
        rw [Int.ofNat_natAbs_of_nonpos hneg.le]
        omega
      rw [List.length_cons]
      exact Nat.succ_le_succ (length_natText_le hk (by exact_mod_cast hdigits))
  · next hpos =>
      have hdigits : (z.natAbs : ℤ) < 10 ^ (k + 1) := by
        rw [Int.natAbs_of_nonneg (not_lt.mp hpos)]
        exact hhigh
      exact length_natText_le (Nat.succ_pos k) (by exact_mod_cast hdigits)

theorem mem_intText {z : ℤ} {c : Char} (h : c ∈ intText z) : c = '-' ∨ c.isDigit = true := by
  unfold intText at h
  split at h
  · rcases List.mem_cons.mp h with rfl | h
    · exact .inl rfl
    · exact .inr (isDigit_of_mem_natText h)
  · exact .inr (isDigit_of_mem_natText h)

/-! ### Labels -/

/-- What `\w` matches. -/
def isWord (c : Char) : Bool := c.isAlphanum || c = '_'

abbrev Label := Text × Text

/-- A match of `(\w+)="([^"]*)"` at the beginning, and what comes after it. -/
def labelAt (s : Text) : Option (Label × Text) :=
  match s.takeWhile isWord, s.dropWhile isWord with
  | c :: name, '=' :: '"' :: rest =>
      match rest.dropWhile (· ≠ '"') with
      | [] => none
      | _ :: after => some ((c :: name, rest.takeWhile (· ≠ '"')), after)
  | _, _ => none

theorem length_of_labelAt {s after : Text} {l : Label} (h : labelAt s = some (l, after)) :
    after.length < s.length := by
  unfold labelAt at h
  split at h
  · next c name rest _ hdrop =>
      split at h
      · cases h
      · next c' after' hrest =>
          cases h
          have houter := (List.dropWhile_suffix isWord (l := s)).length_le
          have hinner := (List.dropWhile_suffix (· ≠ '"') (l := rest)).length_le
          rw [hdrop, List.length_cons, List.length_cons] at houter
          rw [hrest, List.length_cons] at hinner
          omega
  · cases h

/-- `re.findall` of the same pattern: where it does not match, it is tried one
character further. -/
def labels (s : Text) : List Label :=
  match s with
  | [] => []
  | c :: s =>
      match _h : labelAt (c :: s) with
      | some (l, after) => l :: labels after
      | none => labels s
termination_by s.length
decreasing_by
  · exact length_of_labelAt _h
  · exact Nat.lt_succ_self _

/-- Labels as they are written, with commas between them. -/
def labelsText : List Label → Text
  | [] => []
  | [l] => l.1 ++ '=' :: '"' :: (l.2 ++ ['"'])
  | l :: ls => l.1 ++ '=' :: '"' :: (l.2 ++ '"' :: ',' :: labelsText ls)

theorem mem_labelsText {ls : List Label} {c : Char} (h : c ∈ labelsText ls) :
    c = '=' ∨ c = '"' ∨ c = ',' ∨ ∃ l ∈ ls, c ∈ l.1 ∨ c ∈ l.2 := by
  induction ls with
  | nil => cases h
  | cons l ls ih =>
      cases ls with
      | nil =>
          simp only [labelsText, List.mem_append, List.mem_cons, List.not_mem_nil, or_false] at h
          grind
      | cons l' ls =>
          simp only [labelsText, List.mem_append, List.mem_cons] at h ih
          grind

/-- A label that is read back: a word, and a value without quotes. -/
structure Label.Ok (l : Label) : Prop where
  name_ne : l.1 ≠ []
  name_word : ∀ c ∈ l.1, isWord c = true
  value_quote : '"' ∉ l.2

theorem label_ok {name : String} {l value : Text} (hs : name = String.ofList l) (hne : l ≠ [])
    (hword : l.all isWord = true) (hvalue : '"' ∉ value) : Label.Ok (name.toList, value) := by
  rw [hs, String.toList_ofList]
  exact ⟨hne, List.all_eq_true.mp hword, hvalue⟩

theorem takeWhile_dropWhile_append {p : Char → Bool} {text : Text} {c : Char}
    (h : ∀ x ∈ text, p x = true) (hc : p c = false) (rest : Text) :
    (text ++ c :: rest).takeWhile p = text ∧ (text ++ c :: rest).dropWhile p = c :: rest := by
  rw [List.takeWhile_append_of_pos h, List.takeWhile_cons_of_neg (by simp [hc]), List.append_nil,
    List.dropWhile_append_of_pos h, List.dropWhile_cons_of_neg (by simp [hc])]
  exact ⟨rfl, rfl⟩

theorem labels_cons_label {l : Label} (h : l.Ok) (rest : Text) :
    labels (l.1 ++ '=' :: '"' :: (l.2 ++ '"' :: rest)) = l :: labels rest := by
  obtain ⟨name, value⟩ := l
  have hname := takeWhile_dropWhile_append h.name_word (show isWord '=' = false by decide)
    ('"' :: (value ++ '"' :: rest))
  have hvalue : ∀ x ∈ value, decide (x ≠ '"') = true := by
    intro x hx
    have hne : x ≠ '"' := fun he => h.value_quote (he ▸ hx)
    simpa using hne
  have hquote := takeWhile_dropWhile_append hvalue (show decide ('"' ≠ '"') = false by decide) rest
  have hat : labelAt (name ++ '=' :: '"' :: (value ++ '"' :: rest)) =
      some ((name, value), rest) := by
    unfold labelAt
    dsimp only at hname
    rw [hname.1, hname.2]
    cases name with
    | nil => exact absurd rfl h.name_ne
    | cons c name =>
        simp only [hquote.1, hquote.2]
  cases name with
  | nil => exact absurd rfl h.name_ne
  | cons c name =>
      rw [List.cons_append] at hat ⊢
      rw [labels]
      split
      · next he =>
          rw [hat] at he
          cases he
          rfl
      · next he =>
          rw [hat] at he
          cases he

theorem labels_cons_skip {c : Char} (h : isWord c = false) (s : Text) :
    labels (c :: s) = labels s := by
  have hat : labelAt (c :: s) = none := by
    unfold labelAt
    rw [List.takeWhile_cons_of_neg (by simp [h])]
  rw [labels]
  split
  · next he =>
      rw [hat] at he
      cases he
  · rfl

/-- Labels are read back, whatever character closes them. -/
theorem labels_labelsText {ls : List Label} (h : ∀ l ∈ ls, l.Ok) {c : Char}
    (hc : isWord c = false) : labels (labelsText ls ++ [c]) = ls := by
  have hend : labels [c] = [] := by
    rw [labels_cons_skip hc, labels]
  induction ls with
  | nil => exact hend
  | cons l ls ih =>
      have hl := h l List.mem_cons_self
      cases ls with
      | nil =>
          have hlabel := labels_cons_label hl [c]
          rw [hend] at hlabel
          simpa [labelsText] using hlabel
      | cons l' ls =>
          have hrest := ih fun x hx => h x (List.mem_cons_of_mem _ hx)
          have hlabel := labels_cons_label hl (',' :: (labelsText (l' :: ls) ++ [c]))
          rw [labels_cons_skip (by decide), hrest] at hlabel
          simpa [labelsText] using hlabel

end MaglevLb.LineText
