import MaglevLb.LineText
import MaglevLb.OrderedDict

/-!
# Reading the metrics in the bridge

`parse_prometheus` sorts the lines of the text into series without labels and
series with labels, and `summarize` takes from them what the bridge uses. A line
that cannot be read is passed over. Every value is the double that `float` makes
of the text; for the integers here that is an integer again.
-/
namespace MaglevLb.MetricsReader

open OrderedDict LineText

abbrev Labels := Dict Text Text

structure Parsed where
  plain : Dict Text ℤ
  labeled : Dict Text (List (Labels × ℤ))

/-- One turn of the loop of `parse_prometheus`. -/
def Parsed.line (p : Parsed) (line : Text) : Parsed :=
  if line = [] ∨ line.head? = some '#' then p
  else
    match splitLast ' ' line with
    | none => p
    | some (series, value) =>
        match floatLiteral value with
        | none => p
        | some v =>
            match splitFirst '{' series with
            | some (name, rest) =>
                { p with
                  labeled := p.labeled.set name
                    ((p.labeled.get? name).getD [] ++ [(.ofList (labels rest), v)]) }
            | none => { p with plain := p.plain.set series v }

def parsePrometheus (text : Text) : Parsed :=
  (splitLines text).foldl Parsed.line ⟨.empty, .empty⟩

/-- The keys of what is kept for one backend. -/
inductive Field where
  | up
  | adminEnabled
  | draining
  | packets
  | activeFlows
  | flowsAssigned
  | hcFailures
  deriving DecidableEq, Repr

structure Summary where
  rxPackets : ℤ
  txPackets : ℤ
  rxBytes : ℤ
  txBytes : ℤ
  ctEvictions : ℤ
  activeFlows : ℤ
  tableGeneration : ℤ
  regenLastUs : ℤ
  backendsEligible : ℤ
  drops : Dict Text ℤ
  lookups : Dict Text ℤ
  backends : Dict ℤ (Dict Field ℤ)

def Parsed.value (p : Parsed) (name : String) : ℤ := (p.plain.get? name.toList).getD 0

def Parsed.series (p : Parsed) (name : String) : List (Labels × ℤ) :=
  (p.labeled.get? name.toList).getD []

/-- The values of a series by one of its labels. -/
def byLabel (key : String) (l : List (Labels × ℤ)) : Dict Text ℤ :=
  .ofList (l.map fun e => ((e.1.get? key.toList).getD "?".toList, e.2))

def perBackend : List (String × Field) :=
  [("maglev_lb_backend_up", .up),
    ("maglev_lb_backend_admin_enabled", .adminEnabled),
    ("maglev_lb_backend_draining", .draining),
    ("maglev_lb_backend_packets_total", .packets),
    ("maglev_lb_backend_active_flows", .activeFlows),
    ("maglev_lb_backend_flows_assigned_total", .flowsAssigned),
    ("maglev_lb_backend_health_check_failures_total", .hcFailures)]

/-- `out["backends"].setdefault(bid, {})[key] = v` -/
def putField (key : Field) (d : Dict ℤ (Dict Field ℤ)) (bid v : ℤ) : Dict ℤ (Dict Field ℤ) :=
  d.set bid (((d.get? bid).getD .empty).set key v)

def readBackend (key : Field) (d : Dict ℤ (Dict Field ℤ)) (e : Labels × ℤ) :
    Dict ℤ (Dict Field ℤ) :=
  match (e.1.get? "backend_id".toList).bind intLiteral with
  | none => d
  | some bid => putField key d bid e.2

/-- What `summarize` takes from the series. -/
def Parsed.summary (p : Parsed) : Summary :=
  { rxPackets := p.value "maglev_lb_rx_packets_total"
    txPackets := p.value "maglev_lb_tx_packets_total"
    rxBytes := p.value "maglev_lb_rx_bytes_total"
    txBytes := p.value "maglev_lb_tx_bytes_total"
    ctEvictions := p.value "maglev_lb_conntrack_evictions_total"
    activeFlows := p.value "maglev_lb_conntrack_active_flows"
    tableGeneration := p.value "maglev_lb_table_generation"
    regenLastUs := p.value "maglev_lb_table_regen_last_microseconds"
    backendsEligible := p.value "maglev_lb_backends_eligible"
    drops := byLabel "reason" (p.series "maglev_lb_drops_total")
    lookups := byLabel "result" (p.series "maglev_lb_conntrack_lookups_total")
    backends := perBackend.foldl
      (fun d e => (p.series e.1).foldl (readBackend e.2) d) .empty }

def summarize (text : Text) : Summary := (parsePrometheus text).summary

/-! ### What the last loop leaves -/

section Writes

variable {d : Dict ℤ (Dict Field ℤ)} {key : Field} {bid v : ℤ}

def cell (d : Dict ℤ (Dict Field ℤ)) (bid : ℤ) (key : Field) : Option ℤ :=
  (d.get? bid).bind (·.get? key)

theorem cell_putField (key' : Field) (bid' : ℤ) :
    cell (putField key d bid v) bid' key' =
      if bid' = bid ∧ key' = key then some v else cell d bid' key' := by
  unfold cell putField
  rw [Dict.get?_set]
  by_cases hb : bid' = bid
  · subst hb
    rw [if_pos rfl, Option.bind_some, Dict.get?_set]
    by_cases hk : key' = key
    · rw [if_pos hk, if_pos ⟨rfl, hk⟩]
    · rw [if_neg hk, if_neg fun h => hk h.2]
      cases d.get? bid' with
      | none => rfl
      | some e => rfl
  · rw [if_neg hb, if_neg fun h => hb h.1]

structure Write where
  key : Field
  bid : ℤ
  v : ℤ

def Write.put (d : Dict ℤ (Dict Field ℤ)) (w : Write) : Dict ℤ (Dict Field ℤ) :=
  putField w.key d w.bid w.v

/-- Writes to one place that agree leave what they say. -/
theorem cell_foldl_put {ws : List Write}
    (hagree : ∀ w ∈ ws, w.bid = bid → w.key = key → w.v = v)
    (h : (∃ w ∈ ws, w.bid = bid ∧ w.key = key) ∨ cell d bid key = some v) :
    cell (ws.foldl Write.put d) bid key = some v := by
  induction ws generalizing d with
  | nil =>
      rcases h with ⟨w, hw, -⟩ | h
      · cases hw
      · exact h
  | cons w ws ih =>
      rw [List.foldl_cons]
      refine ih (fun x hx => hagree x (List.mem_cons_of_mem _ hx)) ?_
      rw [Write.put, cell_putField]
      split
      · next hw => exact .inr (congrArg some (hagree w List.mem_cons_self hw.1.symm hw.2.symm))
      · next hw =>
          refine h.imp_left ?_
          rintro ⟨x, hx, hxb, hxk⟩
          rcases List.mem_cons.mp hx with rfl | hx
          · exact absurd ⟨hxb.symm, hxk.symm⟩ hw
          · exact ⟨x, hx, hxb, hxk⟩

theorem get?_foldl_put {ws : List Write} (h : (ws.foldl Write.put d).get? bid ≠ none) :
    (∃ w ∈ ws, w.bid = bid) ∨ d.get? bid ≠ none := by
  induction ws generalizing d with
  | nil => exact .inr h
  | cons w ws ih =>
      rcases ih h with ⟨x, hx, hxb⟩ | hd
      · exact .inl ⟨x, List.mem_cons_of_mem _ hx, hxb⟩
      · rw [Write.put, putField, Dict.get?_set] at hd
        split at hd
        · next hw => exact .inl ⟨w, List.mem_cons_self, hw.symm⟩
        · exact .inr hd

end Writes

end MaglevLb.MetricsReader
