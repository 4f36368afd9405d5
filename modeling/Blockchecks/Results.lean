import Blockchecks.StrategyText
import Mathlib.Data.Rat.Defs

namespace Blockchecks.Results

open StrategyText

/-- One probe result; float fields are read as rationals. -/
structure TcpTestResult where
  item : StrategyItem
  domain : String
  success : Bool := false
  httpCode : Int := 0
  latencyMs : ℚ := 0
  settleMs : Option ℚ := none
  contentLength : Int := 0
  contentValid : Bool := true
  throttled : Bool := false
  readRateBps : ℚ := 0
  error : String := ""
  usedIp : String := ""
  probeHost : String := ""
  failPhase : String := ""
  rstInTtl : Int := 0
  bridgeApplied : Option Bool := none
  bridgeBatchId : Int := 0
  bridgeGen : Int := 0
  deriving DecidableEq

def campaignPass (httpOk : Bool) : Option Bool → Bool
  | some true => httpOk
  | some false => false
  | none => httpOk

def TcpTestResult.campaignPass (r : TcpTestResult) : Bool :=
  Results.campaignPass r.success r.bridgeApplied

def stoppedBeforeProbe : String := "stopped before probe"

def nsPoolExhausted : String := "ns pool exhausted"

def skippedResult (error : String) (item : StrategyItem) (domain : String) : TcpTestResult where
  item := item
  domain := domain
  error := error

end Blockchecks.Results
