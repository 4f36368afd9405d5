import Blockchecks.Results
import Mathlib.Data.Finset.Basic
import Mathlib.Data.Finset.Dedup

namespace Blockchecks.BridgeWorkerPool

open StrategyText Results

structure BridgeJob where
  item : StrategyItem
  domain : String
  fanout : Bool := false
  deriving DecidableEq, Repr

structure DomainIsolationPool where
  enabled : Bool := true
  activeDomains : Finset String := ∅

namespace DomainIsolationPool

def claimDomain (pool : DomainIsolationPool) (domain : String) : Bool × DomainIsolationPool :=
  if !pool.enabled then (true, pool)
  else if domain ∈ pool.activeDomains then (false, pool)
  else (true, { pool with activeDomains := insert domain pool.activeDomains })

def releaseDomains (pool : DomainIsolationPool) (domains : List String) : DomainIsolationPool :=
  if !pool.enabled ∨ domains = [] then pool
  else { pool with activeDomains := pool.activeDomains \ domains.toFinset }

def excludedSnapshot (pool : DomainIsolationPool) (extra : Finset String) : Finset String :=
  pool.activeDomains ∪ extra

@[simp] theorem releaseDomains_enabled (pool : DomainIsolationPool) (domains : List String) :
    (pool.releaseDomains domains).enabled = pool.enabled := by
  rw [releaseDomains]
  split <;> rfl

theorem mem_releaseDomains {pool : DomainIsolationPool} (he : pool.enabled = true)
    {domains : List String} {d : String} :
    d ∈ (pool.releaseDomains domains).activeDomains ↔ d ∈ pool.activeDomains ∧ d ∉ domains := by
  rw [releaseDomains]
  split
  next h =>
    have hnil : domains = [] := by simpa [he] using h
    simp [hnil]
  next => simp

theorem releaseDomains_disabled {pool : DomainIsolationPool} (he : pool.enabled = false)
    (domains : List String) : pool.releaseDomains domains = pool := by
  simp [releaseDomains, he]

theorem claimDomain_granted {pool pool' : DomainIsolationPool} (he : pool.enabled = true)
    {domain : String} (h : pool.claimDomain domain = (true, pool')) :
    domain ∉ pool.activeDomains ∧
      pool' = { pool with activeDomains := insert domain pool.activeDomains } := by
  unfold claimDomain at h
  split at h
  next hd => simp [he] at hd
  next =>
    split at h
    · cases h
    next hfree => exact ⟨hfree, (Prod.mk.inj h).2.symm⟩

end DomainIsolationPool

def padResults (jobs : List BridgeJob) (results : List TcpTestResult) : List TcpTestResult :=
  results ++ (jobs.drop results.length).map
    (fun tail => skippedResult stoppedBeforeProbe tail.item tail.domain)

theorem padResults_length {jobs : List BridgeJob} {results : List TcpTestResult}
    (h : results.length ≤ jobs.length) : (padResults jobs results).length = jobs.length := by
  simp only [padResults, List.length_append, List.length_map, List.length_drop]
  omega

end Blockchecks.BridgeWorkerPool
