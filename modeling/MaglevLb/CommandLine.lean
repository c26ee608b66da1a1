import MaglevLb.CLibrary
import MaglevLb.StartUp

/-!
# The command line of maglev-lb

`config_parse_args` takes the options in the order in which `getopt_long` returns them.
Ten of them are numbers, each with a range of its own and a narrower type to be
stored in. Four of the ranges have no upper end.
-/
namespace MaglevLb.CommandLine

open PacketFormat Maglev BackendManager TableGenerator StartUp HealthChecker CLibrary

/-! ### The configuration -/

/-- `CONFIG_MAX_BACKENDS` -/
def configMaxBackends : ℕ := 64

structure Config where
  iface : CText
  vip : UInt32
  directorIp : UInt32
  ttl : UInt8
  tableSize : UInt32
  maxFlows : UInt64
  backends : List Endpoint
  backends_le : backends.length ≤ configMaxBackends
  hcIntervalMs : UInt32
  hcTimeoutMs : UInt32
  hcRise : UInt32
  hcFall : UInt32
  ctTcpTimeoutMs : UInt32
  ctUdpTimeoutMs : UInt32
  tuiEnabled : Bool
  metricsPort : UInt16
  adminFifo : CText

/-- What `config_parse_args` starts from. -/
def Config.initial : Config where
  iface := []
  vip := 0
  directorIp := 0
  ttl := 64
  tableSize := 65537
  maxFlows := 1000000
  backends := []
  backends_le := Nat.zero_le _
  hcIntervalMs := 1000
  hcTimeoutMs := 500
  hcRise := 2
  hcFall := 3
  ctTcpTimeoutMs := 120000
  ctUdpTimeoutMs := 45000
  tuiEnabled := false
  metricsPort := 9105
  adminFifo := []

/-! ### The options -/

/-- The options whose argument is a number. -/
inductive Number where
  | ttl
  | tableSize
  | maxFlows
  | hcIntervalMs
  | hcTimeoutMs
  | hcRise
  | hcFall
  | metricsPort
  | ctTcpTimeoutMs
  | ctUdpTimeoutMs
deriving DecidableEq, Repr

inductive Valued where
  | iface
  | vip
  | directorIp
  | backend
  | number (o : Number)
  | adminFifo
deriving DecidableEq, Repr

inductive Flag where
  | tui
  | help
deriving DecidableEq, Repr

def longOpts : List (CText × (Flag ⊕ Valued)) :=
  [(ascii "iface", .inr .iface),
    (ascii "vip", .inr .vip),
    (ascii "director-ip", .inr .directorIp),
    (ascii "backend", .inr .backend),
    (ascii "ttl", .inr (.number .ttl)),
    (ascii "table-size", .inr (.number .tableSize)),
    (ascii "max-flows", .inr (.number .maxFlows)),
    (ascii "hc-interval-ms", .inr (.number .hcIntervalMs)),
    (ascii "hc-timeout-ms", .inr (.number .hcTimeoutMs)),
    (ascii "hc-rise", .inr (.number .hcRise)),
    (ascii "hc-fall", .inr (.number .hcFall)),
    (ascii "tui", .inl .tui),
    (ascii "metrics-port", .inr (.number .metricsPort)),
    (ascii "admin-fifo", .inr .adminFifo),
    (ascii "ct-tcp-timeout-ms", .inr (.number .ctTcpTimeoutMs)),
    (ascii "ct-udp-timeout-ms", .inr (.number .ctUdpTimeoutMs)),
    (ascii "help", .inl .help)]

/-- `"i:v:d:b:t:m:f:h"` -/
def shortOpts : List (UInt8 × (Flag ⊕ Valued)) :=
  [('i'.toUInt8, .inr .iface),
    ('v'.toUInt8, .inr .vip),
    ('d'.toUInt8, .inr .directorIp),
    ('b'.toUInt8, .inr .backend),
    ('t'.toUInt8, .inr (.number .ttl)),
    ('m'.toUInt8, .inr (.number .tableSize)),
    ('f'.toUInt8, .inr (.number .maxFlows)),
    ('h'.toUInt8, .inl .help)]

/-- `CT_TIMEOUT_MAX_MS` -/
def ctTimeoutMaxMs : ℤ := 3600000

/-- The range test of each number. -/
def Number.outOfRange : Number → ℤ → Bool
  | .ttl, v => v ≤ 0 || v > 255
  | .tableSize, v => v ≤ 2 || v > 4294967295
  | .maxFlows, v => v ≤ 0
  | .hcIntervalMs, v => v ≤ 0
  | .hcTimeoutMs, v => v ≤ 0
  | .hcRise, v => v ≤ 0
  | .hcFall, v => v ≤ 0
  | .metricsPort, v => v < 0 || v > 65535
  | .ctTcpTimeoutMs, v => v ≤ 0 || v > ctTimeoutMaxMs
  | .ctUdpTimeoutMs, v => v ≤ 0 || v > ctTimeoutMaxMs

/-- Whether the argument must be a number as a whole. -/
def Number.strict : Number → Bool
  | .ctTcpTimeoutMs | .ctUdpTimeoutMs => true
  | _ => false

def Number.refuses (o : Number) (optarg : CText) : Bool :=
  let r := strtol optarg
  (o.strict && (r.2 = optarg || r.2 ≠ [])) || o.outOfRange r.1

/-- The assignments, each with its cast. -/
def Number.store (out : Config) (v : ℤ) : Number → Config
  | .ttl => { out with ttl := UInt8.ofInt v }
  | .tableSize => { out with tableSize := UInt32.ofInt v }
  | .maxFlows => { out with maxFlows := UInt64.ofInt v }
  | .hcIntervalMs => { out with hcIntervalMs := UInt32.ofInt v }
  | .hcTimeoutMs => { out with hcTimeoutMs := UInt32.ofInt v }
  | .hcRise => { out with hcRise := UInt32.ofInt v }
  | .hcFall => { out with hcFall := UInt32.ofInt v }
  | .metricsPort => { out with metricsPort := UInt16.ofInt v }
  | .ctTcpTimeoutMs => { out with ctTcpTimeoutMs := UInt32.ofInt v }
  | .ctUdpTimeoutMs => { out with ctUdpTimeoutMs := UInt32.ofInt v }

/-- The text before and behind the last `c`. -/
def splitLast (c : UInt8) (s : CText) : Option (CText × CText) :=
  match s.reverse.dropWhile (· ≠ c) with
  | [] => none
  | _ :: before => some (before.reverse, (s.reverse.takeWhile (· ≠ c)).reverse)

def parseBackendSpec (spec : CText) : Option Endpoint :=
  match splitLast 58 spec with
  | none => none
  | some (ip, portText) =>
      if ip = [] ∨ 64 ≤ ip.length then none
      else
        match inetPton ip with
        | none => none
        | some addr =>
            let port := strtol portText
            if port.2 = portText ∨ port.2 ≠ [] ∨ port.1 ≤ 0 ∨ port.1 > 65535 then none
            else some ⟨addr, UInt16.ofInt port.1⟩

/-! ### Parsing -/

/-- The returns of −1. -/
inductive Failure where
  | invalidVip (optarg : CText)
  | invalidDirectorIp (optarg : CText)
  | tooManyBackends
  | invalidBackend (optarg : CText)
  | invalidNumber (o : Number) (optarg : CText)
  | usage
  | missingArguments
deriving DecidableEq, Repr

/-- What is written to stderr, up to the usage text. -/
def Failure.message : Failure → CText
  | .invalidVip optarg => ascii "invalid --vip: " ++ optarg ++ ascii "\n"
  | .invalidDirectorIp optarg => ascii "invalid --director-ip: " ++ optarg ++ ascii "\n"
  | .tooManyBackends => ascii "too many --backend entries (max 64)\n"
  | .invalidBackend optarg =>
      ascii "invalid --backend (expected IP:PORT): " ++ optarg ++ ascii "\n"
  | .invalidNumber .ttl optarg => ascii "invalid --ttl: " ++ optarg ++ ascii "\n"
  | .invalidNumber .tableSize optarg => ascii "invalid --table-size: " ++ optarg ++ ascii "\n"
  | .invalidNumber .maxFlows optarg => ascii "invalid --max-flows: " ++ optarg ++ ascii "\n"
  | .invalidNumber .hcIntervalMs optarg =>
      ascii "invalid --hc-interval-ms: " ++ optarg ++ ascii "\n"
  | .invalidNumber .hcTimeoutMs optarg => ascii "invalid --hc-timeout-ms: " ++ optarg ++ ascii "\n"
  | .invalidNumber .hcRise optarg => ascii "invalid --hc-rise: " ++ optarg ++ ascii "\n"
  | .invalidNumber .hcFall optarg => ascii "invalid --hc-fall: " ++ optarg ++ ascii "\n"
  | .invalidNumber .metricsPort optarg => ascii "invalid --metrics-port: " ++ optarg ++ ascii "\n"
  | .invalidNumber .ctTcpTimeoutMs optarg =>
      ascii "invalid --ct-tcp-timeout-ms: " ++ optarg ++ ascii " (must be 1..3600000)\n"
  | .invalidNumber .ctUdpTimeoutMs optarg =>
      ascii "invalid --ct-udp-timeout-ms: " ++ optarg ++ ascii " (must be 1..3600000)\n"
  | .usage => []
  | .missingArguments => ascii "missing required arguments\n\n"

/-- Every way out of the loop before its end: `--help`, which returns 1, or a failure. -/
inductive Stop where
  | help
  | failure (f : Failure)
deriving DecidableEq, Repr

structure Parse where
  out : Config
  haveIface : Bool
  haveVip : Bool
  haveDirector : Bool

def Parse.initial : Parse := ⟨Config.initial, false, false, false⟩

theorem length_concat_le {l : List Endpoint} {e : Endpoint} (h : ¬ configMaxBackends ≤ l.length) :
    (l ++ [e]).length ≤ configMaxBackends := by
  rw [List.length_append, List.length_singleton]
  omega

/-- The switch. -/
def Parse.take (p : Parse) : Item Flag Valued → Except Stop Parse
  | .valued .iface optarg =>
      .ok { p with out := { p.out with iface := optarg.take 15 }, haveIface := true }
  | .valued .vip optarg =>
      match inetPton optarg with
      | none => .error (.failure (.invalidVip optarg))
      | some vip => .ok { p with out := { p.out with vip := vip }, haveVip := true }
  | .valued .directorIp optarg =>
      match inetPton optarg with
      | none => .error (.failure (.invalidDirectorIp optarg))
      | some ip => .ok { p with out := { p.out with directorIp := ip }, haveDirector := true }
  | .valued .backend optarg =>
      if h : configMaxBackends ≤ p.out.backends.length then .error (.failure .tooManyBackends)
      else
        match parseBackendSpec optarg with
        | none => .error (.failure (.invalidBackend optarg))
        | some e =>
            .ok { p with
              out := { p.out with
                backends := p.out.backends ++ [e]
                backends_le := length_concat_le h } }
  | .valued (.number o) optarg =>
      if o.refuses optarg then .error (.failure (.invalidNumber o optarg))
      else .ok { p with out := o.store p.out (strtol optarg).1 }
  | .flag .tui => .ok { p with out := { p.out with tuiEnabled := true } }
  | .valued .adminFifo optarg => .ok { p with out := { p.out with adminFifo := optarg.take 255 } }
  | .flag .help => .error .help
  | .unknown => .error (.failure .usage)

/-- What `getopt_long` returns for an argument vector. -/
def options (posixlyCorrect : Bool) (argv : List CText) : List (Item Flag Valued) :=
  getoptLong longOpts shortOpts posixlyCorrect argv.tail

/-- `config_parse_args`; the first argument says whether POSIXLY_CORRECT is in the environment. -/
def configParseArgs (posixlyCorrect : Bool) (argv : List CText) : Except Stop Config :=
  match (options posixlyCorrect argv).foldlM Parse.take Parse.initial with
  | .error stop => .error stop
  | .ok p =>
      if !p.haveIface || !p.haveVip || !p.haveDirector || p.out.backends.length = 0 then
        .error (.failure .missingArguments)
      else .ok p.out

/-! ### What a number is stored as -/

/-- The field of a number. -/
def Number.read (cfg : Config) : Number → ℤ
  | .ttl => cfg.ttl.toNat
  | .tableSize => cfg.tableSize.toNat
  | .maxFlows => cfg.maxFlows.toNat
  | .hcIntervalMs => cfg.hcIntervalMs.toNat
  | .hcTimeoutMs => cfg.hcTimeoutMs.toNat
  | .hcRise => cfg.hcRise.toNat
  | .hcFall => cfg.hcFall.toNat
  | .metricsPort => cfg.metricsPort.toNat
  | .ctTcpTimeoutMs => cfg.ctTcpTimeoutMs.toNat
  | .ctUdpTimeoutMs => cfg.ctUdpTimeoutMs.toNat

/-- How many values the type of the field has. -/
def Number.modulus : Number → ℤ
  | .ttl => 256
  | .metricsPort => 65536
  | .maxFlows => 18446744073709551616
  | _ => 4294967296

/-- The numbers without an upper limit of their own. -/
def hcNumbers : List Number := [.hcIntervalMs, .hcTimeoutMs, .hcRise, .hcFall]

variable {o : Number} {v : ℤ} {cfg : Config} {p p' : Parse} {item : Item Flag Valued}
variable {items : List (Item Flag Valued)}

theorem read_store_self (o : Number) (cfg : Config) (v : ℤ) :
    o.read (o.store cfg v) = v % o.modulus := by
  cases o
  all_goals
    simp only [Number.read, Number.store, Number.modulus, UInt8.ofInt, UInt16.ofInt, UInt32.ofInt,
      UInt64.ofInt, UInt8.toNat_ofNat', UInt16.toNat_ofNat', UInt32.toNat_ofNat',
      UInt64.toNat_ofNat']
    omega

theorem read_store_of_ne {o' : Number} (h : o' ≠ o) (cfg : Config) (v : ℤ) :
    o.read (o'.store cfg v) = o.read cfg := by
  cases o <;> cases o' <;> first | rfl | exact absurd rfl h

/-- The argument of an item that sets `o`. -/
def argOf (o : Number) : Item Flag Valued → Option CText
  | .valued (.number o') optarg => if o' = o then some optarg else none
  | _ => none

/-- The arguments `o` is given, in order. -/
def argsOf (o : Number) (items : List (Item Flag Valued)) : List CText := items.filterMap (argOf o)

/-- The value `strtol` returns for the last occurrence of `o`, or the default. -/
def Number.expected (o : Number) (items : List (Item Flag Valued)) : ℤ :=
  match (argsOf o items).getLast? with
  | none => o.read Config.initial
  | some optarg => (strtol optarg).1

/-- One turn of the loop stores a number that is not refused, or touches no number. -/
theorem take_cases (h : p.take item = .ok p') :
    (∃ o optarg, item = .valued (.number o) optarg ∧ o.refuses optarg = false ∧
        p'.out = o.store p.out (strtol optarg).1) ∨
      ∀ o : Number, argOf o item = none ∧ o.read p'.out = o.read p.out := by
  unfold Parse.take at h
  split at h
  case h_5 o optarg =>
    split at h
    · cases h
    · next hrefuse =>
        cases h
        exact .inl ⟨o, optarg, rfl, Bool.eq_false_iff.mpr hrefuse, rfl⟩
  case h_4 optarg =>
    split at h
    · cases h
    · split at h
      · cases h
      · cases h
        exact .inr fun o => ⟨rfl, by cases o <;> rfl⟩
  case h_2 optarg =>
    split at h
    · cases h
    · cases h
      exact .inr fun o => ⟨rfl, by cases o <;> rfl⟩
  case h_3 optarg =>
    split at h
    · cases h
    · cases h
      exact .inr fun o => ⟨rfl, by cases o <;> rfl⟩
  all_goals
    cases h
  all_goals
    exact .inr fun o => ⟨rfl, by cases o <;> rfl⟩

theorem take_read (h : p.take item = .ok p') (o : Number) :
    match argOf o item with
    | none => o.read p'.out = o.read p.out
    | some optarg =>
        o.refuses optarg = false ∧ o.read p'.out = (strtol optarg).1 % o.modulus := by
  rcases take_cases h with ⟨o', optarg, rfl, hrefuse, hout⟩ | hkept
  · by_cases ho : o' = o
    · subst ho
      rw [argOf, if_pos rfl, hout]
      exact ⟨hrefuse, read_store_self ..⟩
    · rw [argOf, if_neg ho, hout]
      exact read_store_of_ne ho ..
  · rw [(hkept o).1]
    exact (hkept o).2

/-- A loop that comes to its end has refused no argument, and each field holds the last one,
narrowed. -/
theorem foldlM_take_read (h : items.foldlM Parse.take p = .ok p') (o : Number) :
    (∀ optarg ∈ argsOf o items, o.refuses optarg = false) ∧
      o.read p'.out =
        ((argsOf o items).getLast?.map fun optarg => (strtol optarg).1 % o.modulus).getD
          (o.read p.out) := by
  induction items generalizing p with
  | nil =>
      cases h
      exact ⟨fun _ hmem => absurd hmem List.not_mem_nil, rfl⟩
  | cons item items ih =>
      rw [List.foldlM_cons] at h
      cases hitem : p.take item with
      | error stop =>
          rw [hitem] at h
          cases h
      | ok p₁ =>
          rw [hitem] at h
          obtain ⟨hrefuse, hread⟩ := ih h
          have hone := take_read hitem o
          cases harg : argOf o item with
          | none =>
              rw [harg] at hone
              have hargs : argsOf o (item :: items) = argsOf o items :=
                List.filterMap_cons_none harg
              rw [hargs, ← hone]
              exact ⟨hrefuse, hread⟩
          | some optarg =>
              rw [harg] at hone
              have hargs : argsOf o (item :: items) = optarg :: argsOf o items :=
                List.filterMap_cons_some harg
              rw [hargs, List.forall_mem_cons, List.getLast?_cons]
              refine ⟨⟨hone.1, hrefuse⟩, ?_⟩
              rw [hread, hone.2]
              cases (argsOf o items).getLast? <;> rfl

theorem foldlM_of_ready {posixlyCorrect : Bool} {argv : List CText}
    (h : configParseArgs posixlyCorrect argv = .ok cfg) :
    ∃ p, (options posixlyCorrect argv).foldlM Parse.take Parse.initial = .ok p ∧ p.out = cfg ∧
      cfg.backends ≠ [] := by
  unfold configParseArgs at h
  split at h
  · cases h
  · next p hp =>
      split at h
      · cases h
      · next hall =>
          cases h
          simp only [Bool.or_eq_true, not_or] at hall
          exact ⟨p, hp, rfl, fun hnil => hall.2 (by rw [hnil]; rfl)⟩

/-- An instance that is started with an accepted vector comes up, and has a backend. -/
theorem startInstance_of_ready {posixlyCorrect : Bool} {argv : List CText}
    (h : configParseArgs posixlyCorrect argv = .ok cfg) (H : Hashes) (m : TableSize)
    (arp : UInt32 → Mac) :
    ∃ bm, startInstance H m arp cfg.backends = some (currentSnapshot H m bm 1) ∧ bm.live ≠ [] := by
  obtain ⟨p, -, -, hne⟩ := foldlM_of_ready h
  obtain ⟨bm, hloaded, hstart⟩ := startInstance_eq H m arp cfg.backends_le
  refine ⟨bm, hstart, ?_⟩
  rw [hloaded.live, ne_eq, List.mapIdx_eq_nil_iff]
  exact hne

/-- The name under which `getopt_long` knows a number. -/
def Number.longName (o : Number) : CText :=
  ((longOpts.find? fun e => e.2 = .inr (.number o)).map Prod.fst).getD []

/-- The message about a number names its option and shows the argument. -/
theorem message_names_option (o : Number) (optarg : CText) :
    ∃ rest, (Failure.invalidNumber o optarg).message =
      ascii "invalid --" ++ o.longName ++ ascii ": " ++ optarg ++ rest := by
  cases o <;> exact ⟨_, rfl⟩

/-! ### Ranges -/

/-- Every number lies in its own range to begin with. -/
theorem initial_inRange (o : Number) : o.outOfRange (o.read Config.initial) = false := by
  cases o <;> rfl

theorem inRange_of_not_refuses {optarg : CText} (h : o.refuses optarg = false) :
    o.outOfRange (strtol optarg).1 = false := by
  rw [Number.refuses, Bool.or_eq_false_iff] at h
  exact h.2

/-- The range tests that have an upper end keep to the type of their field. -/
theorem lt_modulus_of_inRange (h : o.outOfRange v = false) (hmax : v ≤ longMax)
    (ho : o ∉ hcNumbers) : 0 ≤ v ∧ v < o.modulus := by
  have hlimit : ctTimeoutMaxMs = 3600000 := rfl
  unfold longMax at hmax
  cases o
  case hcIntervalMs => exact absurd (by decide) ho
  case hcTimeoutMs => exact absurd (by decide) ho
  case hcRise => exact absurd (by decide) ho
  case hcFall => exact absurd (by decide) ho
  all_goals
    simp only [Number.outOfRange, Bool.or_eq_false_iff, decide_eq_false_iff_not] at h
    simp only [Number.modulus]
    omega

theorem pos_of_inRange (h : o.outOfRange v = false) (ho : o ∈ hcNumbers) :
    1 ≤ v ∧ o.modulus = 4294967296 := by
  simp only [hcNumbers, List.mem_cons, List.not_mem_nil, or_false] at ho
  rcases ho with rfl | rfl | rfl | rfl
  all_goals
    simp only [Number.outOfRange, decide_eq_false_iff_not] at h
    exact ⟨by omega, rfl⟩

/-- Each field is the value that its last occurrence has, narrowed, and that value is one that
the range test lets through. -/
theorem read_of_ready {posixlyCorrect : Bool} {argv : List CText}
    (h : configParseArgs posixlyCorrect argv = .ok cfg) (o : Number) :
    let v := o.expected (options posixlyCorrect argv)
    o.read cfg = v % o.modulus ∧ o.outOfRange v = false ∧ v ≤ longMax := by
  obtain ⟨p, hp, rfl, -⟩ := foldlM_of_ready h
  obtain ⟨hrefuse, hread⟩ := foldlM_take_read hp o
  dsimp only
  unfold Number.expected
  rw [hread]
  cases hlast : (argsOf o (options posixlyCorrect argv)).getLast? with
  | none =>
      refine ⟨?_, initial_inRange o, by cases o <;> decide⟩
      cases o <;> rfl
  | some optarg =>
      have hok := hrefuse optarg (List.mem_of_getLast? hlast)
      exact ⟨rfl, inRange_of_not_refuses hok, strtol_le optarg⟩

/-- An accepted argument vector: the numbers whose test has an upper end are stored as they
are, and all of them are, with none of the health checker's at zero, if and only if the
health checker's fit their 32 bits. -/
theorem accepted_not_narrowed (posixlyCorrect : Bool) (argv : List CText) (cfg : Config)
    (h : configParseArgs posixlyCorrect argv = .ok cfg) :
    let items := options posixlyCorrect argv
    (∀ o : Number, o ∉ hcNumbers → o.read cfg = o.expected items) ∧
      (((∀ o : Number, o.read cfg = o.expected items) ∧ ∀ o ∈ hcNumbers, 1 ≤ o.read cfg) ↔
        ∀ o ∈ hcNumbers, o.expected items ≤ 4294967295) := by
  have hbounded : ∀ o : Number, o ∉ hcNumbers →
      o.read cfg = o.expected (options posixlyCorrect argv) := by
    intro o ho
    obtain ⟨hread, hrange, hmax⟩ := read_of_ready h o
    obtain ⟨hnonneg, hlt⟩ := lt_modulus_of_inRange hrange hmax ho
    rw [hread, Int.emod_eq_of_lt hnonneg hlt]
  refine ⟨hbounded, fun hall o ho => ?_, fun hfit => ?_⟩
  · obtain ⟨hread, hrange, -⟩ := read_of_ready h o
    rw [(pos_of_inRange hrange ho).2, hall.1 o] at hread
    omega
  · have hhc : ∀ o ∈ hcNumbers, o.read cfg = o.expected (options posixlyCorrect argv) ∧
        1 ≤ o.read cfg := by
      intro o ho
      obtain ⟨hread, hrange, -⟩ := read_of_ready h o
      obtain ⟨hpos, hmodulus⟩ := pos_of_inRange hrange ho
      have hle := hfit o ho
      rw [hmodulus] at hread
      omega
    refine ⟨fun o => ?_, fun o ho => (hhc o ho).2⟩
    by_cases ho : o ∈ hcNumbers
    · exact (hhc o ho).1
    · exact hbounded o ho

/-- What every instance is started with, and some options more. -/
def sampleArgv (more : List String) : List CText :=
  (["maglev-lb", "--iface", "eth0", "--vip=10.0.0.100", "-d", "10.0.0.1", "--backend",
    "10.0.0.11:80"] ++ more).map ascii

theorem exists_of_any {x : Except Stop Config} {P : Config → Bool} (h : x.toOption.any P = true) :
    ∃ cfg, x = .ok cfg ∧ P cfg = true := by
  cases x with
  | error stop => cases h
  | ok cfg => exact ⟨cfg, rfl, h⟩

theorem accepted_not_narrowed_repeated :
    ∃ cfg, configParseArgs false (sampleArgv ["--hc-rise", "7", "--hc-rise=5"]) = .ok cfg ∧
      Number.hcRise.read cfg = 5 := by
  let argv := sampleArgv ["--hc-rise", "7", "--hc-rise=5"]
  have hready : (configParseArgs false argv).toOption.any (fun _ => true) = true := by
    decide +kernel
  obtain ⟨cfg, hok, -⟩ := exists_of_any hready
  have hfit : ∀ o ∈ hcNumbers, o.expected (options false argv) ≤ 4294967295 := by decide +kernel
  have hvalue : Number.hcRise.expected (options false argv) = 5 := by decide +kernel
  have hall := ((accepted_not_narrowed false argv cfg hok).2.mpr hfit).1 .hcRise
  exact ⟨cfg, hok, hall.trans hvalue⟩

/-- No backend becomes healthy when the number of successes it takes is zero. -/
theorem record_rise_zero {hc : HealthCheckCfg} (h : hc.rise = 0) (st : ProbeState) (ok : Bool) :
    (st.record hc ok).2.setHealth ≠ some true := by
  have hlt : ¬ st.consecutiveOk < hc.rise := by
    rw [h, UInt32.lt_iff_toNat_lt]
    exact Nat.not_lt_zero _
  unfold ProbeState.record
  cases ok with
  | true =>
      rw [if_pos rfl]
      dsimp only
      rw [if_neg hlt]
      exact fun hc => nomatch hc
  | false =>
      rw [if_neg Bool.false_ne_true]
      dsimp only
      split
      · dsimp only
        split
        · exact fun hc => nomatch hc
        · exact fun hc => nomatch hc
      · exact fun hc => nomatch hc

/-- `--hc-rise 4294967296` is accepted and stored as zero. -/
theorem wide_rise_accepted :
    let argv := sampleArgv ["--hc-rise", "4294967296"]
    ∃ cfg, configParseArgs false argv = .ok cfg ∧
      Number.hcRise.expected (options false argv) = 4294967296 ∧ cfg.hcRise = 0 ∧
      ∀ st ok, (ProbeState.record ⟨cfg.hcRise, cfg.hcFall⟩ st ok).2.setHealth ≠ some true := by
  dsimp only
  have hready : (configParseArgs false (sampleArgv ["--hc-rise", "4294967296"])).toOption.any
      (fun cfg => cfg.hcRise = 0) = true := by
    decide +kernel
  obtain ⟨cfg, hok, hzero⟩ := exists_of_any hready
  have hrise : cfg.hcRise = 0 := of_decide_eq_true hzero
  exact ⟨cfg, hok, by decide +kernel, hrise, record_rise_zero hrise⟩

end MaglevLb.CommandLine
