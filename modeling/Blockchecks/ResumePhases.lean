import Blockchecks.ProbeLogger
import Blockchecks.RunLog

namespace Blockchecks.ResumePhases

open StrategyText Results BatchService RunStore RunLog ProbeLogger

inductive Phase where
  | tcp | http | quic
  deriving DecidableEq

/-- The protocol that the phase asks for when it looks for a row on resume. -/
def Phase.proto : Phase → String
  | .tcp => "tcp"
  | .http => "http"
  | .quic => "quic"

/-- The row that a phase logs for a probed pair. The TCP phase logs under the
backend of its mode, the HTTP phase under the one-shot backend. The QUIC phase
runs only without tcp_only, and takes the bridge whenever tcp_only is off. -/
def phaseEntry (tcpOnly : Bool) (phase : Phase) (item : StrategyItem) (domain : String)
    (result : TcpTestResult) (backend : Backend) (dns : DnsMeta) : Option TcpEntry :=
  match phase with
  | .tcp => some (logTcpCampaign item domain result backend dns)
  | .http => some (logTcpCampaign item domain result .oneshot dns)
  | .quic =>
      if tcpOnly then none
      else
        let useBridge := !tcpOnly
        if useBridge then some (logTcpCampaign item domain result backend dns)
        else some (logQuicResult item domain result dns)

/-- After the row is written the phase finds it on resume, and only the queries
of the phase's protocol rank it. -/
def Recognised (db : Db) (runId : Nat) (phase : Phase) (item : StrategyItem) (domain : String)
    (entry : TcpEntry) : Prop :=
  (db.write runId entry).hasTcpResult runId item.label domain phase.proto = true ∧
    ∀ proto row s, (db.write runId entry).tcp.getLast? = some row →
      (row, s) ∈ (db.write runId entry).latestRows proto anyRun → proto = phase.proto

def Tagged : Phase → StrategyItem → Prop
  | .tcp, item => item.protocol ≠ "http"
  | .http, item => item.protocol = "http"
  | .quic, _ => False

instance : (phase : Phase) → (item : StrategyItem) → Decidable (Tagged phase item)
  | .tcp, item => inferInstanceAs (Decidable (item.protocol ≠ "http"))
  | .http, item => inferInstanceAs (Decidable (item.protocol = "http"))
  | .quic, _ => inferInstanceAs (Decidable False)

variable {db : Db} {runId : Nat} {entry : TcpEntry}

/-- The last row of the joined table after a write is the entry, under its own
strategy name and protocol. -/
theorem joined_write (db : Db) (runId : Nat) (entry : TcpEntry) : ∃ before p,
    (db.write runId entry).joined = before ++ [p] ∧
      loggedOf p = ⟨entry.strategy, entry.proto, some runId, entry.columns⟩ := by
  have hlog := log_write db runId entry
  rw [log] at hlog
  obtain ⟨before, last, hjoined, _, hlast⟩ := List.map_eq_append_iff.mp hlog
  obtain ⟨p, rest, rfl, hp, hrest⟩ := List.map_eq_cons_iff.mp hlast
  rw [List.map_eq_nil_iff.mp hrest] at hjoined
  exact ⟨before, p, hjoined, hp⟩

theorem written_ranked_iff {proto : String} :
    (∃ row s, (db.write runId entry).tcp.getLast? = some row ∧
      (row, s) ∈ (db.write runId entry).latestRows proto anyRun) ↔ entry.proto = proto := by
  obtain ⟨before, p, hjoined, hp⟩ := joined_write db runId entry
  have hproto : p.2.proto = entry.proto := congrArg Logged.proto hp
  have hlast : (db.write runId entry).tcp.getLast? = some p.1 := by
    rw [← joined_rows, hjoined, List.map_append]
    exact List.getLast?_concat
  have hmem : p ∈ (db.write runId entry).joined := by
    rw [hjoined]
    exact List.mem_append_right _ (List.mem_singleton.mpr rfl)
  constructor
  · rintro ⟨row, s, hrow, hranked⟩
    obtain rfl : p.1 = row := Option.some.inj (hlast.symm.trans hrow)
    obtain ⟨hs, hlatest⟩ := mem_latestRows.mp hranked
    have hjoin : (p.1, s) ∈ (db.write runId entry).joined :=
      List.mem_of_mem_filter (List.mem_of_getLast? hlatest)
    have he := eq_of_row_id hmem hjoin rfl
    rw [← hproto, he]
    exact hs
  · rintro rfl
    refine ⟨p.1, p.2, hlast, mem_latestRows.mpr ⟨hproto, ?_⟩⟩
    have his : (loggedOf p).is entry.proto anyRun (p.2.name, p.1.columns.domain) = true :=
      Logged.is_iff.mpr ⟨hproto, rfl, rfl, rfl⟩
    rw [hjoined, List.filter_append, List.filter_singleton, his]
    exact List.getLast?_concat

theorem recognised_iff {phase : Phase} {item : StrategyItem} {domain : String}
    (hname : entry.strategy = item.label) (hdomain : entry.columns.domain = domain) :
    Recognised db runId phase item domain entry ↔ entry.proto = phase.proto := by
  constructor
  · rintro ⟨_, hranked⟩
    obtain ⟨row, s, hrow, hmem⟩ := written_ranked_iff.mpr rfl
    exact hranked _ row s hrow hmem
  · intro hproto
    refine ⟨?_, ?_⟩
    · rw [hasTcpResult_iff, log_write]
      refine ⟨_, List.mem_append_right _ (List.mem_singleton.mpr rfl), ?_⟩
      exact Logged.is_iff.mpr ⟨hproto, decide_eq_true rfl, hname, hdomain⟩
    · intro proto row s hrow hmem
      exact (written_ranked_iff.mp ⟨row, s, hrow, hmem⟩).symm.trans hproto

theorem protoDb_eq (item : StrategyItem) : protoDb item = if item.protocol = "http" then "http" else "tcp" := by
  by_cases hempty : item.protocol = "" <;> simp [protoDb, orElse, hempty]

theorem phaseEntry_eq {tcpOnly : Bool} {phase : Phase} {item : StrategyItem} {domain : String}
    {result : TcpTestResult} {backend : Backend} {dns : DnsMeta}
    (h : phaseEntry tcpOnly phase item domain result backend dns = some entry) :
    ∃ backend, entry = logTcpCampaign item domain result backend dns := by
  cases phase with
  | tcp => exact ⟨_, (Option.some.inj h).symm⟩
  | http => exact ⟨_, (Option.some.inj h).symm⟩
  | quic =>
      cases tcpOnly with
      | true => cases h
      | false => exact ⟨_, (Option.some.inj h).symm⟩

/-- A phase recognises its own row exactly when the protocol of the item fits
the phase: not http in the TCP phase, http in the HTTP phase, and never in the
QUIC phase, whose rows go through the bridge's logger. -/
theorem phase_row_recognised_iff {tcpOnly : Bool} {phase : Phase} {item : StrategyItem} {domain : String}
    {result : TcpTestResult} {backend : Backend} {dns : DnsMeta} {entry : TcpEntry}
    (h : phaseEntry tcpOnly phase item domain result backend dns = some entry) (db : Db) (runId : Nat) :
    Recognised db runId phase item domain entry ↔ Tagged phase item := by
  obtain ⟨b, rfl⟩ := phaseEntry_eq h
  refine (recognised_iff rfl rfl).trans ?_
  change protoDb item = phase.proto ↔ _
  rw [protoDb_eq]
  cases phase <;> by_cases hp : item.protocol = "http" <;> simp [Phase.proto, Tagged, hp]

def appliedPass (item : StrategyItem) : TcpTestResult :=
  { item := item, domain := "a.example", success := true, httpCode := 200, latencyMs := 40,
    bridgeApplied := some true }

theorem tlsRow_recognised : ∃ entry,
    phaseEntry false .tcp splitItem "a.example" (appliedPass splitItem) .luaBridge {} = some entry ∧
      Tagged .tcp splitItem ∧ Recognised emptyDb 1 .tcp splitItem "a.example" entry := by
  have htagged : Tagged .tcp splitItem := by decide
  have hentry : phaseEntry false .tcp splitItem "a.example" (appliedPass splitItem) .luaBridge {} =
      some (logTcpCampaign splitItem "a.example" (appliedPass splitItem) .luaBridge {}) := rfl
  exact ⟨_, hentry, htagged, (phase_row_recognised_iff hentry emptyDb 1).mpr htagged⟩

def quicItem : StrategyItem := ⟨"quic_fake_1", "fake:blob=quic_initial:repeats=6", false, "quic"⟩

/-- A QUIC probe is not found on resume and is returned as the best TCP strategy. -/
theorem quicRow_ranked_as_tcp : ∃ entry,
    phaseEntry false .quic quicItem "a.example" (appliedPass quicItem) .luaBridge {} = some entry ∧
      (emptyDb.write 1 entry).hasTcpResult 1 "quic_fake_1" "a.example" "quic" = false ∧
      (emptyDb.write 1 entry).getBestTcp "a.example" 5 = [⟨"quic_fake_1", 40, 200, ""⟩] := by
  refine ⟨_, rfl, ?_, ?_⟩ <;> decide +kernel

end Blockchecks.ResumePhases
