import MaglevLb.Schema
import Mathlib.Algebra.BigOperators.Group.List.Basic
import Mathlib.Algebra.Order.Ring.Rat
import Mathlib.Data.List.Forall2

/-!
# The language of the desired state

The documents that are meant to be accepted, stated on the document and without
errors, substitutes or an order of checks, and that `validate_desired` accepts
these and no others. A check decides a relation when it adds no error exactly
where the relation gives a value, and returns that value. The normalized state
written out as a document is accepted again and gives itself.
-/
namespace MaglevLb.DesiredLanguage

open Children Reconcile Slots Schema

abbrev Members := List (String × Json)

/-! ### Checks that decide a relation -/

section Decides

variable {α β γ : Type} {R : α → β → Prop}

structure Decides (c : α → Checked β) (R : α → β → Prop) : Prop where
  reads : ∀ {a b}, R a b → (c a).value = b ∧ (c a).errors = []
  of_clean : ∀ {a}, (c a).errors = [] → R a (c a).value

/-- The relation as one on what a check finds, or not. -/
def Found (R : α → β → Prop) (a : α) (found : Option β) : Prop := ∃ b, found = some b ∧ R a b

theorem forall₂_reads {c : ℕ → α → Checked (Option β)} (h : ∀ i, Decides (c i) (Found R))
    {as : List α} {bs : List β} (hR : List.Forall₂ R as bs) :
    (as.mapIdx c).filterMap Checked.value = bs ∧ (as.mapIdx c).flatMap Checked.errors = [] := by
  induction hR generalizing c with
  | nil => exact ⟨rfl, rfl⟩
  | cons hab _ ih =>
      obtain ⟨hvalue, herrors⟩ := (h 0).reads ⟨_, rfl, hab⟩
      obtain ⟨hvalues, hclean⟩ := ih fun i => h (i + 1)
      rw [List.mapIdx_cons]
      exact ⟨by rw [List.filterMap_cons_some hvalue, hvalues],
        by rw [List.flatMap_cons, herrors, hclean, List.nil_append]⟩

theorem forall₂_of_clean {c : ℕ → α → Checked (Option β)} (h : ∀ i, Decides (c i) (Found R))
    {as : List α} (hclean : (as.mapIdx c).flatMap Checked.errors = []) :
    List.Forall₂ R as ((as.mapIdx c).filterMap Checked.value) := by
  induction as generalizing c with
  | nil => exact .nil
  | cons a as ih =>
      rw [List.mapIdx_cons, List.flatMap_cons, List.append_eq_nil_iff] at hclean
      obtain ⟨b, hvalue, hab⟩ := (h 0).of_clean hclean.1
      rw [List.mapIdx_cons, List.filterMap_cons_some hvalue]
      exact .cons hab (ih (fun i => h (i + 1)) hclean.2)

theorem exists_of_mem {as : List α} {bs : List β} (h : List.Forall₂ R as bs) {b : β}
    (hb : b ∈ bs) : ∃ a, R a b := by
  obtain ⟨i, hi, rfl⟩ := List.mem_iff_getElem.mp hb
  exact ⟨_, h.get (h.length_eq ▸ hi) hi⟩

end Decides

/-! ### Single values -/

/-- The exact value of a number; a boolean is none, nor is a float that overflowed. -/
def exactValue : Json → Option ℚ
  | .num (.int z) => some z
  | .num (.float q) => some q
  | _ => none

def Fits (lo hi : ℤ) (integer : Bool) (q : ℚ) : Prop :=
  lo ≤ q ∧ q ≤ hi ∧ (integer = true → q.isInt = true)

def NumberReads (lo hi : ℤ) (integer : Bool) (v : Json) (q : ℚ) : Prop :=
  exactValue v = some q ∧ Fits lo hi integer q

theorem inRange_decides (path : String) (lo hi : ℤ) :
    Decides (inRange path · lo hi) (Found fun v q => v = q ∧ lo ≤ q ∧ q ≤ hi) where
  reads := by
    rintro v _ ⟨q, rfl, rfl, hlo, hhi⟩
    rw [inRange, if_neg (not_or.mpr ⟨not_lt.mpr hlo, not_lt.mpr hhi⟩)]
    exact ⟨rfl, rfl⟩
  of_clean := by
    intro v h
    unfold inRange at h ⊢
    split
    · next hout => rw [if_pos hout] at h; cases h
    · next hin =>
        obtain ⟨hlo, hhi⟩ := not_or.mp hin
        exact ⟨v, rfl, rfl, not_lt.mp hlo, not_lt.mp hhi⟩

theorem number_decides (path : String) (lo hi : ℤ) (integer : Bool) :
    Decides (number path · lo hi integer) (Found (NumberReads lo hi integer)) where
  reads := by
    rintro v _ ⟨q, rfl, hq, hlo, hhi, hint⟩
    have hrange := (inRange_decides path lo hi).reads ⟨q, rfl, rfl, hlo, hhi⟩
    unfold exactValue at hq
    split at hq
    · cases hq
      exact hrange
    · cases hq
      have hcond : (integer && !q.isInt) = false := by
        cases integer
        · rfl
        · simp [hint rfl]
      simp only [number, hcond]
      exact hrange
    · cases hq
  of_clean := by
    intro v h
    unfold number at h ⊢
    split
    · cases h
    · next z =>
        obtain ⟨q, hvalue, rfl, hlo, hhi⟩ := (inRange_decides path lo hi).of_clean h
        exact ⟨z, hvalue, rfl, hlo, hhi, fun _ => rfl⟩
    · next q =>
        dsimp only at h
        split
        · next hcond => rw [if_pos hcond] at h; cases h
        · next hcond =>
            rw [if_neg hcond] at h
            obtain ⟨q, hvalue, rfl, hlo, hhi⟩ := (inRange_decides path lo hi).of_clean h
            exact ⟨q, hvalue, rfl, hlo, hhi, fun hinteger => by simpa [hinteger] using hcond⟩
    · simp at h

def IdReads (v : Option Json) (id : String) : Prop := v = some (.str id) ∧ matchesId id = true

theorem idOf_decides (path : String) : Decides (idOf path) (Found IdReads) where
  reads := by
    rintro v _ ⟨id, rfl, rfl, hid⟩
    simp [idOf, hid]
  of_clean := by
    intro v h
    unfold idOf at h ⊢
    dsimp only at h ⊢
    split
    · next id =>
        dsimp only at h
        split
        · next hid => exact ⟨id, rfl, rfl, hid⟩
        · next hid => rw [if_neg hid] at h; cases h
    · simp at h

/-- An object with no other keys than these. -/
def ObjectReads (known : List String) (v : Json) (n : Members) : Prop :=
  v = .obj n ∧ ∀ m ∈ n, m.1 ∈ known

theorem obj_decides (path : String) (known : List String) :
    Decides (obj path · known) (ObjectReads known) where
  reads := by
    rintro _ n ⟨rfl, hknown⟩
    refine ⟨rfl, ?_⟩
    simp only [obj, List.map_eq_nil_iff, List.filter_eq_nil_iff]
    intro m hm
    simp [hknown m hm]
  of_clean := by
    intro v h
    unfold obj at h ⊢
    split
    · next n =>
        simp only [List.map_eq_nil_iff, List.filter_eq_nil_iff] at h
        exact ⟨rfl, fun m hm => by simpa using h m hm⟩
    · simp at h

/-! ### Nodes -/

/-- A numeric setting, and where a configuration keeps it. -/
structure Setting (C : Type) extends Schema.Field C where
  get : C → ℚ

def Setting.Fits {C : Type} (s : Setting C) (q : ℚ) : Prop :=
  DesiredLanguage.Fits s.lo s.hi s.integer q

/-- A kind of node. Its settings are independent of each other and make up its
configuration, and every default passes its own check. -/
structure Kind (C : Type) where
  settings : List (Setting C)
  defaults : C
  distinct : ("id" :: settings.map fun s => s.name).Nodup
  get_set : ∀ s ∈ settings, ∀ c q, s.Fits q → s.get (s.set c q) = q
  get_set_of_ne : ∀ s ∈ settings, ∀ t ∈ settings, s.name ≠ t.name →
    ∀ c q, s.get (t.set c q) = s.get c
  ext : ∀ c d, (∀ s ∈ settings, s.get c = s.get d) → c = d
  default_fits : ∀ s ∈ settings, s.Fits (s.get defaults)

theorem Kind.eq_of_name {C : Type} (k : Kind C) {s t : Setting C} (hs : s ∈ k.settings)
    (ht : t ∈ k.settings) (h : s.name = t.name) : s = t :=
  List.inj_on_of_nodup_map (List.nodup_cons.mp k.distinct).2 hs ht h

theorem num_of_fits {lo hi : ℤ} {q : ℚ} (h : Fits lo hi true q) : (q.num : ℚ) = q :=
  Rat.den_eq_one_iff q |>.mp (by simpa [Rat.isInt] using h.2.2 rfl)

def clientKind : Kind ClientConfig where
  settings := List.zipWith Setting.mk clientFields
    [fun c => c.rps, fun c => c.timeoutMs, fun c => c.retries, fun c => c.poolSize,
      fun c => c.maxConnAgeMs]
  defaults := clientDefaults
  distinct := by decide
  get_set := by
    simp only [clientFields, List.zipWith, List.forall_mem_cons, Setting.Fits]
    exact ⟨fun _ _ _ => trivial, fun _ _ _ => trivial, fun _ _ => num_of_fits,
      fun _ _ => num_of_fits, fun _ _ => num_of_fits, by simp⟩
  get_set_of_ne := by simp [clientFields]
  ext := by
    intro c d h
    simp only [clientFields, List.zipWith, List.forall_mem_cons, Rat.intCast_inj] at h
    obtain ⟨hrps, htimeout, hretries, hpool, hage, -⟩ := h
    cases c
    cases d
    simp_all
  default_fits := by
    simp only [clientFields, List.zipWith, List.forall_mem_cons, Setting.Fits, Fits]
    decide +kernel

def backendKind : Kind BackendConfig where
  settings := List.zipWith Setting.mk backendFields
    [fun c => c.capacity, fun c => c.serviceMs, fun c => c.serviceCv, fun c => c.queueLimit,
      fun c => c.errorRate]
  defaults := backendDefaults
  distinct := by decide
  get_set := by
    simp only [backendFields, List.zipWith, List.forall_mem_cons, Setting.Fits]
    exact ⟨fun _ _ => num_of_fits, fun _ _ _ => trivial, fun _ _ _ => trivial,
      fun _ _ => num_of_fits, fun _ _ _ => trivial, by simp⟩
  get_set_of_ne := by simp [backendFields]
  ext := by
    intro c d h
    simp only [backendFields, List.zipWith, List.forall_mem_cons, Rat.intCast_inj] at h
    obtain ⟨hcapacity, hservice, hcv, hqueue, herror, -⟩ := h
    cases c
    cases d
    simp_all
  default_fits := by
    simp only [backendFields, List.zipWith, List.forall_mem_cons, Setting.Fits, Fits]
    decide +kernel

section Nodes

variable {C : Type} {n : Members}

/-- The value given for a setting, or its default. -/
def settingOf (n : Members) (name : String) (default : ℚ) : ℚ :=
  ((get? n name).bind exactValue).getD default

/-- The value given for a setting is one it can have. -/
def Given (n : Members) (f : Schema.Field C) : Prop :=
  ∀ w, get? n f.name = some w → ∃ q, NumberReads f.lo f.hi f.integer w q

/-- A node's object: its id, and settings that fit, each the one given or the default. -/
def NodeReads (k : Kind C) (v : Json) (node : String × C) : Prop :=
  ∃ n, ObjectReads ("id" :: k.settings.map fun s => s.name) v n ∧ IdReads (get? n "id") node.1 ∧
    ∀ s ∈ k.settings, Given n s.toField ∧
      s.get node.2 = settingOf n s.name (s.get k.defaults)

theorem readField_errors (path : String) (cfg : Checked C) (f : Schema.Field C) :
    (readField path n cfg f).errors = [] ↔ cfg.errors = [] ∧ Given n f := by
  unfold readField Given
  cases hw : get? n f.name with
  | none => simp
  | some w =>
      have hdecides := number_decides (path ++ "." ++ f.name) f.lo f.hi f.integer
      rw [List.append_eq_nil_iff]
      refine and_congr_right fun _ => ⟨fun hclean w' hw' => ?_, fun hgiven => ?_⟩
      · cases hw'
        obtain ⟨q, -, hq⟩ := hdecides.of_clean hclean
        exact ⟨q, hq⟩
      · obtain ⟨q, hq⟩ := hgiven w rfl
        exact (hdecides.reads ⟨q, rfl, hq⟩).2

/-- A field that fits is stored, and one that is absent leaves the configuration. -/
theorem readField_value (path : String) (cfg : Checked C) {f : Schema.Field C} (h : Given n f) :
    (readField path n cfg f).value = cfg.value ∧ get? n f.name = none ∨
      ∃ w q, get? n f.name = some w ∧ NumberReads f.lo f.hi f.integer w q ∧
        (readField path n cfg f).value = f.set cfg.value q := by
  unfold readField
  cases hw : get? n f.name with
  | none => exact .inl ⟨rfl, rfl⟩
  | some w =>
      obtain ⟨q, hq⟩ := h w hw
      have hvalue := ((number_decides (path ++ "." ++ f.name) f.lo f.hi f.integer).reads
        ⟨q, rfl, hq⟩).1
      refine .inr ⟨w, q, rfl, hq, ?_⟩
      simp only [hvalue, Option.map_some, Option.getD_some]

variable {k : Kind C} {s t : Setting C}

theorem readField_get (path : String) (cfg : Checked C) (hs : s ∈ k.settings)
    (h : Given n s.toField) :
    s.get (readField path n cfg s.toField).value = settingOf n s.name (s.get cfg.value) := by
  rcases readField_value path cfg h with ⟨hvalue, hnone⟩ | ⟨w, q, hw, hq, hvalue⟩
  · rw [hvalue, settingOf, hnone]
    rfl
  · rw [hvalue, settingOf, hw, k.get_set s hs _ q hq.2, Option.bind_some, hq.1]
    rfl

theorem readField_get_of_ne (path : String) (cfg : Checked C) (hs : s ∈ k.settings)
    (ht : t ∈ k.settings) (hne : s.name ≠ t.name) (h : Given n t.toField) :
    s.get (readField path n cfg t.toField).value = s.get cfg.value := by
  rcases readField_value path cfg h with ⟨hvalue, -⟩ | ⟨w, q, -, -, hvalue⟩
  · rw [hvalue]
  · rw [hvalue, k.get_set_of_ne s hs t ht hne]

theorem foldl_readField_errors (path : String) (fs : List (Schema.Field C)) (cfg : Checked C) :
    (fs.foldl (readField path n) cfg).errors = [] ↔ cfg.errors = [] ∧ ∀ f ∈ fs, Given n f := by
  induction fs generalizing cfg with
  | nil => simp
  | cons f fs ih => rw [List.foldl_cons, ih, readField_errors, List.forall_mem_cons, and_assoc]

/-- The loop over some of the settings: those get their value, the others keep theirs. -/
theorem foldl_readField_get (path : String) (ss : List (Setting C)) (cfg : Checked C)
    (hsub : ss ⊆ k.settings) (hnodup : (ss.map fun s => s.name).Nodup)
    (hgiven : ∀ s ∈ ss, Given n s.toField) (hs : s ∈ k.settings) :
    s.get ((ss.map Setting.toField).foldl (readField path n) cfg).value =
      if s.name ∈ ss.map fun s => s.name then settingOf n s.name (s.get cfg.value)
      else s.get cfg.value := by
  induction ss generalizing cfg with
  | nil => simp
  | cons t ss ih =>
      rw [List.map_cons, List.nodup_cons] at hnodup
      have ht : t ∈ k.settings := hsub List.mem_cons_self
      have hgivent : Given n t.toField := hgiven t List.mem_cons_self
      rw [List.map_cons, List.foldl_cons, ih _ (List.subset_of_cons_subset hsub) hnodup.2
        (fun s hs => hgiven s (List.mem_cons_of_mem _ hs)), List.map_cons]
      by_cases hname : s.name = t.name
      · obtain rfl : s = t := k.eq_of_name hs ht hname
        rw [if_neg hnodup.1, if_pos List.mem_cons_self, readField_get path cfg hs hgivent]
      · rw [readField_get_of_ne path cfg hs ht hname hgivent]
        simp only [List.mem_cons, hname, false_or]

theorem foldl_settings (path : String) (hgiven : ∀ s ∈ k.settings, Given n s.toField)
    (hs : s ∈ k.settings) :
    s.get ((k.settings.map Setting.toField).foldl (readField path n) ⟨k.defaults, []⟩).value =
      settingOf n s.name (s.get k.defaults) := by
  rw [foldl_readField_get path k.settings _ (List.Subset.refl _)
    (List.nodup_cons.mp k.distinct).2 hgiven hs, if_pos (List.mem_map_of_mem hs)]

theorem readNode_decides (path : String) (k : Kind C) :
    Decides (readNode path (k.settings.map Setting.toField) k.defaults) (Found (NodeReads k)) where
  reads := by
    rintro v _ ⟨⟨id, cfg⟩, rfl, n, hobj, hid, hsettings⟩
    have hknown : (k.settings.map Setting.toField).map Schema.Field.name =
        k.settings.map fun s => s.name := List.map_map
    obtain ⟨hn, hn'⟩ := (obj_decides path _).reads hobj
    obtain ⟨hi, hi'⟩ := (idOf_decides (path ++ ".id")).reads ⟨id, rfl, hid⟩
    have hgiven : ∀ s ∈ k.settings, Given n s.toField := fun s hs => (hsettings s hs).1
    have hvalue : ((k.settings.map Setting.toField).foldl (readField path n)
        ⟨k.defaults, []⟩).value = cfg := by
      refine k.ext _ _ fun s hs => ?_
      rw [foldl_settings path hgiven hs, (hsettings s hs).2]
    have hclean : ((k.settings.map Setting.toField).foldl (readField path n)
        ⟨k.defaults, []⟩).errors = [] := by
      rw [foldl_readField_errors, List.forall_mem_map]
      exact ⟨rfl, hgiven⟩
    simp only [readNode, hknown, hn, hn', hi, hi', hvalue, hclean, Option.map_some,
      List.append_nil, and_self]
  of_clean := by
    intro v h
    unfold readNode at h ⊢
    simp only [List.append_eq_nil_iff] at h
    rw [List.map_map] at h ⊢
    obtain ⟨⟨hobj, hid⟩, hfields⟩ := h
    have hreads := (obj_decides path _).of_clean hobj
    obtain ⟨id, hidvalue, hidreads⟩ := (idOf_decides _).of_clean hid
    rw [foldl_readField_errors, List.forall_mem_map] at hfields
    dsimp only
    rw [hidvalue]
    exact ⟨_, rfl, _, hreads, hidreads, fun s hs =>
      ⟨hfields.2 s hs, foldl_settings path hfields.2 hs⟩⟩

/-- A list of at most `limit` nodes. -/
def NodesRead (k : Kind C) (limit : ℕ) (v : Json) (nodes : List (String × C)) : Prop :=
  ∃ items, v = .arr items ∧ items.length ≤ limit ∧ List.Forall₂ (NodeReads k) items nodes

theorem nodeList_decides (path : String) (k : Kind C) (limit : ℕ) :
    Decides (nodeList path · (k.settings.map Setting.toField) k.defaults limit)
      (NodesRead k limit) where
  reads := by
    rintro _ nodes ⟨items, rfl, hlimit, hnodes⟩
    simp only [nodeList, List.take_of_length_le hlimit, if_neg (Nat.not_lt.mpr hlimit)]
    exact forall₂_reads (fun i => readNode_decides _ k) hnodes
  of_clean := by
    intro v h
    unfold nodeList at h ⊢
    split
    · next items =>
        rw [List.append_eq_nil_iff] at h
        have hlimit : items.length ≤ limit := by
          by_contra hover
          rw [if_pos (Nat.not_le.mp hover)] at h
          cases h.1
        rw [List.take_of_length_le hlimit] at h ⊢
        exact ⟨items, rfl, hlimit, forall₂_of_clean (fun i => readNode_decides _ k) h.2⟩
    · simp at h

end Nodes

/-! ### Edges -/

def Joins (ends : Ends) (e : String × String) : Prop :=
  e.1 ∈ ends.clients ∧ some e.2 = ends.lb ∨ some e.1 = ends.lb ∧ e.2 ∈ ends.backends

def EdgeReads (ends : Ends) (v : Json) (e : String × String) : Prop :=
  ∃ n, ObjectReads ["from", "to"] v n ∧ IdReads (get? n "from") e.1 ∧ IdReads (get? n "to") e.2 ∧
    Joins ends e

theorem readEdge_decides (ends : Ends) (path : String) :
    Decides (readEdge ends path) (Found (EdgeReads ends)) where
  reads := by
    rintro v _ ⟨⟨a, b⟩, rfl, n, hobj, ha, hb, hjoins⟩
    obtain ⟨hn, hn'⟩ := (obj_decides path _).reads hobj
    obtain ⟨hfrom, hfrom'⟩ := (idOf_decides (path ++ ".from")).reads ⟨a, rfl, ha⟩
    obtain ⟨hto, hto'⟩ := (idOf_decides (path ++ ".to")).reads ⟨b, rfl, hb⟩
    simp only [readEdge, hn, hn', hfrom, hfrom', hto, hto']
    by_cases hclient : a ∈ ends.clients ∧ some b = ends.lb
    · rw [if_pos hclient]
      exact ⟨rfl, rfl⟩
    · rw [if_neg hclient, if_pos (hjoins.resolve_left hclient)]
      exact ⟨rfl, rfl⟩
  of_clean := by
    intro v h
    have hchecks : (obj path v ["from", "to"]).errors = [] ∧
        (idOf (path ++ ".from") (get? (obj path v ["from", "to"]).value "from")).errors = [] ∧
        (idOf (path ++ ".to") (get? (obj path v ["from", "to"]).value "to")).errors = [] := by
      unfold readEdge at h
      dsimp only at h
      split at h
      · split_ifs at h <;> simp_all
      · simp_all
    obtain ⟨hobj, hfrom, hto⟩ := hchecks
    have hn := (obj_decides path _).of_clean hobj
    obtain ⟨a, ha, hfromreads⟩ := (idOf_decides _).of_clean hfrom
    obtain ⟨b, hb, htoreads⟩ := (idOf_decides _).of_clean hto
    simp only [readEdge, ha, hb] at h ⊢
    split_ifs at h ⊢ with hclient hbackend
    · exact ⟨(a, b), rfl, _, hn, hfromreads, htoreads, .inl hclient⟩
    · exact ⟨(a, b), rfl, _, hn, hfromreads, htoreads, .inr hbackend⟩
    · simp at h
    · simp at h

def EdgesRead (ends : Ends) (v : Json) (edges : List (String × String)) : Prop :=
  ∃ items, v = .arr items ∧ items.length ≤ 20 ∧ List.Forall₂ (EdgeReads ends) items edges

theorem edgeList_decides (ends : Ends) : Decides (edgeList ends) (EdgesRead ends) where
  reads := by
    rintro _ edges ⟨items, rfl, hlimit, hedges⟩
    have hfew : ¬maxClients + maxBackends < items.length := Nat.not_lt.mpr hlimit
    simp only [edgeList, if_neg hfew]
    exact forall₂_reads (fun i => readEdge_decides ends _) hedges
  of_clean := by
    intro v h
    unfold edgeList at h ⊢
    split
    · next items =>
        dsimp only at h
        split
        · next hover => rw [if_pos hover] at h; cases h
        · next hlimit =>
            rw [if_neg hlimit] at h
            exact ⟨items, rfl, Nat.not_lt.mp hlimit,
              forall₂_of_clean (fun i => readEdge_decides ends _) h⟩
    · simp at h

/-! ### The document -/

/-- What a document says. -/
structure Reading where
  lb : String
  clients : List (String × ClientConfig)
  backends : List (String × BackendConfig)
  edges : List (String × String)
  enabled : Bool

namespace Reading

def ends (r : Reading) : Ends := ⟨some r.lb, r.clients.map Prod.fst, r.backends.map Prod.fst⟩

/-- A client is connected by an edge to the load balancer, a backend attached by one from it. -/
def canvas (r : Reading) : Canvas where
  lb := some r.lb
  desired :=
    { clients := r.clients.map fun c => ⟨c.1, c.2, decide ((c.1, r.lb) ∈ r.edges)⟩
      backends := r.backends.map fun b => ⟨b.1, b.2, decide ((r.lb, b.1) ∈ r.edges)⟩
      loadEnabled := r.enabled }

end Reading

/-- A member of an object, or what an absent one stands for. -/
def member (n : Members) (key : String) (absent : Json) : Json := (get? n key).getD absent

/-- A document, with the members of its objects, and what it says. -/
structure Documented (top nodes load : Members) (doc : Json) (r : Reading) : Prop where
  document : ObjectReads ["schema", "nodes", "edges", "load"] doc top
  schema : get? top "schema" = some (.str "l4mlb-live/1")
  nodesObject : ObjectReads ["lb", "clients", "backends"] (member top "nodes" .null) nodes
  lb : IdReads (get? nodes "lb") r.lb
  clients : NodesRead clientKind 4 (member nodes "clients" (.arr [])) r.clients
  backends : NodesRead backendKind 16 (member nodes "backends" (.arr [])) r.backends
  ages : ∀ c ∈ r.clients, c.2.maxConnAgeMs = 0 ∨ 1000 ≤ c.2.maxConnAgeMs
  rps : (r.clients.map fun c => c.2.rps).sum ≤ 4000
  unique : (r.lb :: (r.clients.map Prod.fst ++ r.backends.map Prod.fst)).Nodup
  edges : EdgesRead r.ends (member top "edges" (.arr [])) r.edges
  distinct : r.edges.Nodup
  loadObject :
    ObjectReads ["enabled"] (member top "load" (.obj [("enabled", .bool false)])) load
  enabled : member load "enabled" (.bool false) = .bool r.enabled

/-- The documented language, with its meaning. -/
def Means (doc : Json) (r : Reading) : Prop := ∃ top nodes load, Documented top nodes load doc r

theorem checkSchema_eq_nil (v : Option Json) :
    checkSchema v = [] ↔ v = some (.str "l4mlb-live/1") := by
  unfold checkSchema schema
  split
  · simp
  · next hnot => simpa using fun h => hnot _ h

theorem checkAges_eq_nil (clients : List (String × ClientConfig)) :
    checkAges clients = [] ↔
      ∀ c ∈ clients, c.2.maxConnAgeMs = 0 ∨ 1000 ≤ c.2.maxConnAgeMs := by
  have hage : ∀ age : ℤ, ¬(age ≠ 0 ∧ age < 1000) ↔ age = 0 ∨ 1000 ≤ age := by
    intro age
    omega
  simp only [checkAges, List.flatten_eq_nil_iff, ← hage]
  constructor
  · intro h c hc hyoung
    obtain ⟨i, hi, rfl⟩ := List.mem_iff_getElem.mp hc
    have hnil := h _ (List.mem_mapIdx.mpr ⟨i, hi, rfl⟩)
    rw [if_pos hyoung] at hnil
    cases hnil
  · intro h l hl
    obtain ⟨i, hi, rfl⟩ := List.mem_mapIdx.mp hl
    exact if_neg (h _ (List.getElem_mem hi))

theorem checkRps_eq_nil (clients : List (String × ClientConfig)) :
    checkRps clients = [] ↔ (clients.map fun c => c.2.rps).sum ≤ 4000 := by
  have hsum : clients.foldl (fun total c => total + c.2.rps) 0 =
      (clients.map fun c => c.2.rps).sum := by
    rw [List.sum_eq_foldl, List.foldl_map]
  rw [checkRps, hsum, ← not_lt]
  simp [maxTotalRps]

theorem checkEdges_eq_nil (edges : List (String × String)) :
    checkEdges edges = [] ↔ edges.Nodup := by
  simp [checkEdges]

theorem readEnabled_decides : Decides readEnabled fun v b => v = .bool b where
  reads := by
    rintro _ b rfl
    exact ⟨rfl, rfl⟩
  of_clean := by
    intro v h
    unfold readEnabled at h ⊢
    split
    · rfl
    · simp at h

section Document

variable {doc : Json} {r : Reading}

theorem clientList_decides : Decides
    (nodeList "$.nodes.clients" · clientFields clientDefaults maxClients)
    (NodesRead clientKind 4) :=
  nodeList_decides _ clientKind 4

theorem backendList_decides : Decides
    (nodeList "$.nodes.backends" · backendFields backendDefaults maxBackends)
    (NodesRead backendKind 16) :=
  nodeList_decides _ backendKind 16

theorem any_edge_eq (edges : List (String × String)) (a b : String) :
    (edges.any fun e => e.1 = a ∧ e.2 = b) = decide ((a, b) ∈ edges) := by
  rw [Bool.eq_iff_iff]
  simp

/-- A documented document is accepted, and normalized to what it says. -/
theorem validateDesired_of_means (h : Means doc r) : validateDesired doc = .ok r.canvas := by
  obtain ⟨top, nodes, load, h⟩ := h
  obtain ⟨htop, htop'⟩ := (obj_decides "$" _).reads h.document
  obtain ⟨hnodes, hnodes'⟩ := (obj_decides "$.nodes" _).reads h.nodesObject
  obtain ⟨hlb, hlb'⟩ := (idOf_decides "$.nodes.lb").reads ⟨r.lb, rfl, h.lb⟩
  obtain ⟨hclients, hclients'⟩ := clientList_decides.reads h.clients
  obtain ⟨hbackends, hbackends'⟩ := backendList_decides.reads h.backends
  obtain ⟨hedges, hedges'⟩ := (edgeList_decides _).reads h.edges
  obtain ⟨hload, hload'⟩ := (obj_decides "$.load" _).reads h.loadObject
  obtain ⟨henabled, henabled'⟩ := readEnabled_decides.reads h.enabled
  have hschema := (checkSchema_eq_nil _).mpr h.schema
  have hages := (checkAges_eq_nil _).mpr h.ages
  have hrps := (checkRps_eq_nil _).mpr h.rps
  have hdistinct := (checkEdges_eq_nil _).mpr h.distinct
  have hunique : checkUnique r.ends = [] := if_pos h.unique
  simp only [member, Reading.ends] at *
  simp only [validateDesired, htop, htop', hnodes, hnodes', hlb, hlb',
    hclients, hclients', hbackends, hbackends', hedges, hedges', hload, hload', henabled,
    henabled', hschema, hages, hrps, hdistinct, hunique, List.append_nil, Option.some.injEq,
    any_edge_eq, if_true]
  rfl

/-- An accepted document is a documented one. -/
theorem means_of_validateDesired {canvas : Canvas} (h : validateDesired doc = .ok canvas) :
    ∃ r, Means doc r := by
  unfold validateDesired at h
  dsimp only at h
  split at h
  · next herrors =>
      simp only [List.append_eq_nil_iff] at herrors
      obtain ⟨⟨⟨⟨⟨⟨⟨⟨⟨⟨⟨⟨hdoc, hschema⟩, hnodes⟩, hlb⟩, hclients⟩, hbackends⟩, hages⟩, hrps⟩,
        hunique⟩, hedges⟩, hdistinct⟩, hload⟩, henabled⟩ := herrors
      obtain ⟨lb, hlbvalue, hlbreads⟩ := (idOf_decides _).of_clean hlb
      rw [hlbvalue] at hunique hedges hdistinct
      exact ⟨⟨lb, _, _, _, _⟩, _, _, _,
        { document := (obj_decides _ _).of_clean hdoc
          schema := (checkSchema_eq_nil _).mp hschema
          nodesObject := (obj_decides _ _).of_clean hnodes
          lb := hlbreads
          clients := clientList_decides.of_clean hclients
          backends := backendList_decides.of_clean hbackends
          ages := (checkAges_eq_nil _).mp hages
          rps := (checkRps_eq_nil _).mp hrps
          unique := checkUnique_eq_nil hunique
          edges := (edgeList_decides _).of_clean hedges
          distinct := (checkEdges_eq_nil _).mp hdistinct
          loadObject := (obj_decides _ _).of_clean hload
          enabled := readEnabled_decides.of_clean henabled }⟩
  · cases h

theorem errors_ne_nil {errors : List Error} (h : validateDesired doc = .error errors) :
    errors ≠ [] := by
  unfold validateDesired at h
  dsimp only at h
  split at h
  · cases h
  · next herrors =>
      cases h
      exact herrors

end Document

/-! ### The normalized state as a document -/

section Encode

variable {C : Type} {k : Kind C} {s : Setting C} {node : String × C}

def encodeNumber (integer : Bool) (q : ℚ) : Json :=
  .num (if integer then .int q.num else .float q)

def Kind.encode (k : Kind C) (node : String × C) : Members :=
  ("id", .str node.1) :: k.settings.map fun s => (s.name, encodeNumber s.integer (s.get node.2))

theorem exactValue_encodeNumber {lo hi : ℤ} {integer : Bool} {q : ℚ} (h : Fits lo hi integer q) :
    exactValue (encodeNumber integer q) = some q := by
  cases integer with
  | false => rfl
  | true => exact congrArg some (num_of_fits h)

theorem get?_map {α : Type} (key : α → String) (val : α → Json) {l : List α} {a : α}
    (hnodup : (l.map key).Nodup) (ha : a ∈ l) :
    get? (l.map fun a => (key a, val a)) (key a) = some (val a) := by
  induction l with
  | nil => cases ha
  | cons b l ih =>
      rw [List.map_cons, List.nodup_cons] at hnodup
      rcases List.mem_cons.mp ha with rfl | ha
      · simp [get?]
      · have hne : key b ≠ key a := by
          intro heq
          exact hnodup.1 (heq ▸ List.mem_map_of_mem ha)
        simpa [get?, hne] using ih hnodup.2 ha

theorem get?_encode (hs : s ∈ k.settings) :
    get? (k.encode node) s.name = some (encodeNumber s.integer (s.get node.2)) := by
  obtain ⟨hid, hnodup⟩ := List.nodup_cons.mp k.distinct
  have hne : "id" ≠ s.name := by
    intro heq
    exact hid (heq ▸ List.mem_map_of_mem hs)
  have hget := get?_map (fun s : Setting C => s.name)
    (fun s => encodeNumber s.integer (s.get node.2)) hnodup hs
  simpa [get?, Kind.encode, hne] using hget

theorem fits_of_reads {v : Json} (h : NodeReads k v node) (hs : s ∈ k.settings) :
    s.Fits (s.get node.2) := by
  obtain ⟨n, -, -, hsettings⟩ := h
  obtain ⟨hgiven, hget⟩ := hsettings s hs
  rw [hget, settingOf]
  cases hw : get? n s.name with
  | none => exact k.default_fits s hs
  | some w =>
      obtain ⟨q, hq, hfits⟩ := hgiven w hw
      rw [Option.bind_some, hq]
      exact hfits

theorem encode_reads (hid : matchesId node.1 = true)
    (hfits : ∀ s ∈ k.settings, s.Fits (s.get node.2)) :
    NodeReads k (.obj (k.encode node)) node := by
  refine ⟨k.encode node, ⟨rfl, ?_⟩, ⟨rfl, hid⟩, fun s hs => ⟨?_, ?_⟩⟩
  · intro m hm
    rcases List.mem_cons.mp hm with rfl | hm
    · exact List.mem_cons_self
    · obtain ⟨s, hs, rfl⟩ := List.mem_map.mp hm
      exact List.mem_cons_of_mem _ (List.mem_map_of_mem hs)
  · intro w hw
    rw [get?_encode hs, Option.some.injEq] at hw
    exact ⟨_, hw ▸ exactValue_encodeNumber (hfits s hs), hfits s hs⟩
  · rw [settingOf, get?_encode hs, Option.bind_some, exactValue_encodeNumber (hfits s hs)]
    rfl

theorem NodesRead.encode {limit : ℕ} {v : Json} {nodes : List (String × C)}
    (h : NodesRead k limit v nodes) :
    NodesRead k limit (.arr (nodes.map fun node => .obj (k.encode node))) nodes := by
  obtain ⟨items, -, hlimit, hnodes⟩ := h
  refine ⟨_, rfl, ?_, ?_⟩
  · rw [List.length_map, ← hnodes.length_eq]
    exact hlimit
  · rw [List.forall₂_map_left_iff, List.forall₂_same]
    intro node hnode
    obtain ⟨v, hreads⟩ := exists_of_mem hnodes hnode
    obtain ⟨n, -, ⟨-, hid⟩, -⟩ := id hreads
    exact encode_reads hid fun s hs => fits_of_reads hreads hs

end Encode

/-- Text, or the `None` of an id that was refused. -/
def encodeId (id : Option String) : Json := id.elim .null .str

def encodeEdge (e : Option String × Option String) : Json :=
  .obj [("from", encodeId e.1), ("to", encodeId e.2)]

/-- An edge for each node that has one. -/
def edgesOf (c : Canvas) : List (Option String × Option String) :=
  ((c.desired.clients.filter ClientNode.connected).map fun n => (some n.id, c.lb)) ++
    (c.desired.backends.filter BackendNode.attached).map fun n => (c.lb, some n.id)

/-- The document of a normalized state. -/
def encode (c : Canvas) : Json :=
  .obj [("schema", .str "l4mlb-live/1"),
    ("nodes", .obj [("lb", encodeId c.lb),
      ("clients", .arr (c.desired.clients.map fun n => .obj (clientKind.encode (n.id, n.config)))),
      ("backends",
        .arr (c.desired.backends.map fun n => .obj (backendKind.encode (n.id, n.config))))]),
    ("edges", .arr ((edgesOf c).map encodeEdge)),
    ("load", .obj [("enabled", .bool c.desired.loadEnabled)])]

namespace Reading

variable {r : Reading}

/-- The same with the edges in the order of the nodes. -/
def redrawn (r : Reading) : Reading :=
  { r with
    edges := ((r.clients.filter fun c => (c.1, r.lb) ∈ r.edges).map fun c => (c.1, r.lb)) ++
      (r.backends.filter fun b => (r.lb, b.1) ∈ r.edges).map fun b => (r.lb, b.1) }

theorem edgesOf_canvas (r : Reading) :
    edgesOf r.canvas = r.redrawn.edges.map fun e => (some e.1, some e.2) := by
  simp [edgesOf, canvas, redrawn, List.filter_map, Function.comp_def]

theorem mem_redrawn {e : String × String} :
    e ∈ r.redrawn.edges ↔ e ∈ r.edges ∧
      (e.2 = r.lb ∧ e.1 ∈ r.clients.map Prod.fst ∨ e.1 = r.lb ∧ e.2 ∈ r.backends.map Prod.fst) := by
  obtain ⟨a, b⟩ := e
  simp only [redrawn, List.mem_append, List.mem_map, List.mem_filter, decide_eq_true_eq,
    Prod.mk.injEq]
  constructor
  · rintro (⟨c, ⟨hc, hedge⟩, rfl, rfl⟩ | ⟨c, ⟨hc, hedge⟩, rfl, rfl⟩)
    · exact ⟨hedge, .inl ⟨rfl, c, hc, rfl⟩⟩
    · exact ⟨hedge, .inr ⟨rfl, c, hc, rfl⟩⟩
  · rintro ⟨hedge, ⟨rfl, c, hc, rfl⟩ | ⟨rfl, c, hc, rfl⟩⟩
    · exact .inl ⟨c, ⟨hc, hedge⟩, rfl, rfl⟩
    · exact .inr ⟨c, ⟨hc, hedge⟩, rfl, rfl⟩

theorem redrawn_canvas (r : Reading) : r.redrawn.canvas = r.canvas := by
  have hclients : ∀ c ∈ r.clients, ((c.1, r.lb) ∈ r.redrawn.edges ↔ (c.1, r.lb) ∈ r.edges) := by
    intro c hc
    rw [mem_redrawn]
    exact and_iff_left (.inl ⟨rfl, List.mem_map_of_mem hc⟩)
  have hbackends : ∀ b ∈ r.backends, ((r.lb, b.1) ∈ r.redrawn.edges ↔ (r.lb, b.1) ∈ r.edges) := by
    intro b hb
    rw [mem_redrawn]
    exact and_iff_left (.inr ⟨rfl, List.mem_map_of_mem hb⟩)
  simp only [canvas]
  congr 2
  · exact List.map_congr_left fun c hc => congrArg _ (decide_eq_decide.mpr (hclients c hc))
  · exact List.map_congr_left fun b hb => congrArg _ (decide_eq_decide.mpr (hbackends b hb))

theorem nodup_map_filter {C : Type} {l : List (String × C)} (h : (l.map Prod.fst).Nodup)
    (p : String × C → Bool) {g : String → String × String} (hg : Function.Injective g) :
    ((l.filter p).map fun c => g c.1).Nodup := by
  have hfilter : ((l.filter p).map Prod.fst).Nodup := h.sublist (List.filter_sublist.map _)
  have hmap := hfilter.map hg
  rwa [List.map_map] at hmap

theorem redrawn_nodup
    (hunique : (r.lb :: (r.clients.map Prod.fst ++ r.backends.map Prod.fst)).Nodup) :
    r.redrawn.edges.Nodup := by
  obtain ⟨hlb, hnodes⟩ := List.nodup_cons.mp hunique
  obtain ⟨hclients, hbackends, -⟩ := List.nodup_append.mp hnodes
  refine List.nodup_append.mpr ⟨nodup_map_filter hclients _ fun a b h => (Prod.mk.inj h).1,
    nodup_map_filter hbackends _ fun a b h => (Prod.mk.inj h).2, ?_⟩
  rintro e he _ he' rfl
  obtain ⟨c, hc, rfl⟩ := List.mem_map.mp he
  obtain ⟨b, hb, hedge⟩ := List.mem_map.mp he'
  -- The edge of a backend starts at the load balancer, which is no client.
  have hclient : c.1 = r.lb := (Prod.mk.inj hedge).1.symm
  exact hlb (hclient ▸ List.mem_append_left _ (List.mem_map_of_mem (List.mem_of_mem_filter hc)))

theorem redrawn_length : r.redrawn.edges.length ≤ r.clients.length + r.backends.length := by
  rw [redrawn, List.length_append, List.length_map, List.length_map]
  exact Nat.add_le_add (List.length_filter_le _ _) (List.length_filter_le _ _)

end Reading

theorem NodesRead.length_le {C : Type} {k : Kind C} {limit : ℕ} {v : Json}
    {nodes : List (String × C)} (h : NodesRead k limit v nodes) : nodes.length ≤ limit := by
  obtain ⟨items, -, hlimit, hnodes⟩ := h
  exact hnodes.length_eq ▸ hlimit

theorem NodesRead.matchesId {C : Type} {k : Kind C} {limit : ℕ} {v : Json}
    {nodes : List (String × C)} (h : NodesRead k limit v nodes) {id : String}
    (hid : id ∈ nodes.map Prod.fst) : matchesId id = true := by
  obtain ⟨items, -, -, hnodes⟩ := h
  obtain ⟨node, hnode, rfl⟩ := List.mem_map.mp hid
  obtain ⟨v, n, -, ⟨-, hid⟩, -⟩ := exists_of_mem hnodes hnode
  exact hid

theorem EdgesRead.encode {top nodes load : Members} {doc : Json} {r : Reading}
    (h : Documented top nodes load doc r) :
    EdgesRead r.ends (.arr ((edgesOf r.canvas).map encodeEdge)) r.redrawn.edges := by
  rw [Reading.edgesOf_canvas, List.map_map]
  refine ⟨_, rfl, ?_, ?_⟩
  · rw [List.length_map]
    exact Reading.redrawn_length.trans (Nat.add_le_add h.clients.length_le h.backends.length_le)
  · rw [List.forall₂_map_left_iff, List.forall₂_same]
    intro e he
    obtain ⟨-, ⟨hlb, hclient⟩ | ⟨hlb, hbackend⟩⟩ := Reading.mem_redrawn.mp he
    · exact ⟨_, ⟨rfl, by simp⟩, ⟨rfl, h.clients.matchesId hclient⟩, ⟨rfl, hlb ▸ h.lb.2⟩,
        .inl ⟨hclient, congrArg some hlb⟩⟩
    · exact ⟨_, ⟨rfl, by simp⟩, ⟨rfl, hlb ▸ h.lb.2⟩, ⟨rfl, h.backends.matchesId hbackend⟩,
        .inr ⟨congrArg some hlb, hbackend⟩⟩

/-- Every id a document mentions. -/
def Reading.ids (r : Reading) : List String :=
  r.lb :: (r.clients.map Prod.fst ++ r.backends.map Prod.fst) ++ r.edges.flatMap fun e => [e.1, e.2]

theorem matchesId_of_mem_ids {doc : Json} {r : Reading} (h : Means doc r) {id : String}
    (hid : id ∈ r.ids) : matchesId id = true := by
  obtain ⟨top, nodes, load, h⟩ := h
  rw [Reading.ids, List.mem_append, List.mem_cons, List.mem_append] at hid
  rcases hid with (rfl | hclient | hbackend) | hedge
  · exact h.lb.2
  · exact h.clients.matchesId hclient
  · exact h.backends.matchesId hbackend
  · obtain ⟨e, he, hend⟩ := List.mem_flatMap.mp hedge
    obtain ⟨items, -, -, hedges⟩ := h.edges
    obtain ⟨v, n, -, ⟨-, hfrom⟩, ⟨-, hto⟩, -⟩ := exists_of_mem hedges he
    rcases List.mem_pair.mp hend with rfl | rfl
    · exact hfrom
    · exact hto

/-- What a document says, written out, is a document that says the same. -/
theorem means_encode {doc : Json} {r : Reading} (h : Means doc r) :
    Means (encode r.canvas) r.redrawn := by
  obtain ⟨top, nodes, load, h⟩ := h
  have hclients : r.canvas.desired.clients.map
      (fun n => Json.obj (clientKind.encode (n.id, n.config))) =
        r.clients.map fun node => .obj (clientKind.encode node) := by
    simp [Reading.canvas, Function.comp_def]
  have hbackends : r.canvas.desired.backends.map
      (fun n => Json.obj (backendKind.encode (n.id, n.config))) =
        r.backends.map fun node => .obj (backendKind.encode node) := by
    simp [Reading.canvas, Function.comp_def]
  exact ⟨_, _, _,
    { document := ⟨rfl, by simp⟩
      schema := rfl
      nodesObject := ⟨rfl, by simp⟩
      lb := ⟨rfl, h.lb.2⟩
      clients := hclients ▸ h.clients.encode
      backends := hbackends ▸ h.backends.encode
      ages := h.ages
      rps := h.rps
      unique := h.unique
      edges := EdgesRead.encode h
      distinct := Reading.redrawn_nodup h.unique
      loadObject := ⟨rfl, by simp⟩
      enabled := rfl }⟩

/-! ### Accepted and refused -/

/-- Exactly the documents that say something are accepted, with what they say; the others
are refused, with at least one error. The result written out again gives the result. -/
theorem validate_desired_language (doc : Json) :
    (∀ canvas, validateDesired doc = .ok canvas ↔ ∃ r, Means doc r ∧ r.canvas = canvas) ∧
      ((¬∃ r, Means doc r) ↔ ∃ errors, validateDesired doc = .error errors ∧ errors ≠ []) ∧
      ∀ canvas, validateDesired doc = .ok canvas →
        validateDesired (encode canvas) = .ok canvas := by
  have haccepts (canvas : Canvas) :
      validateDesired doc = .ok canvas ↔ ∃ r, Means doc r ∧ r.canvas = canvas := by
    constructor
    · intro hok
      obtain ⟨r, hr⟩ := means_of_validateDesired hok
      rw [validateDesired_of_means hr, Except.ok.injEq] at hok
      exact ⟨r, hr, hok⟩
    · rintro ⟨r, hr, rfl⟩
      exact validateDesired_of_means hr
  refine ⟨haccepts, ⟨?_, ?_⟩, ?_⟩
  · intro hnone
    cases hresult : validateDesired doc with
    | ok canvas =>
        obtain ⟨r, hr, -⟩ := (haccepts canvas).mp hresult
        exact absurd ⟨r, hr⟩ hnone
    | error errors => exact ⟨errors, rfl, errors_ne_nil hresult⟩
  · rintro ⟨errors, herror, -⟩ ⟨r, hr⟩
    rw [validateDesired_of_means hr] at herror
    cases herror
  · intro canvas hok
    obtain ⟨r, hr, rfl⟩ := (haccepts canvas).mp hok
    rw [validateDesired_of_means (means_encode hr), Reading.redrawn_canvas]

/-- A connected client with its rate given, and two backends of which one is attached. -/
def drawing : Json :=
  .obj [("schema", .str "l4mlb-live/1"),
    ("nodes", .obj [("lb", .str "lb"),
      ("clients", .arr [.obj [("id", .str "c1"), ("rps", .num (.float (41 / 2)))]]),
      ("backends", .arr [.obj [("id", .str "b1")],
        .obj [("id", .str "b2"), ("capacity", .num (.float 2))]])]),
    ("edges", .arr [.obj [("from", .str "lb"), ("to", .str "b2")],
      .obj [("from", .str "c1"), ("to", .str "lb")]])]

def drawn : Canvas :=
  ⟨some "lb",
    { clients := [⟨"c1", { clientDefaults with rps := 41 / 2 }, true⟩]
      backends := [⟨"b1", backendDefaults, false⟩,
        ⟨"b2", { backendDefaults with capacity := 2 }, true⟩]
      loadEnabled := false }⟩

theorem validate_desired_language_drawn :
    validateDesired drawing = .ok drawn ∧ (∃ r, Means drawing r ∧ r.canvas = drawn) ∧
      validateDesired (encode drawn) = .ok drawn := by
  have hok : validateDesired drawing = .ok drawn := by
    decide +kernel
  exact ⟨hok, ((validate_desired_language drawing).1 drawn).mp hok,
    (validate_desired_language drawing).2.2 drawn hok⟩

end MaglevLb.DesiredLanguage
