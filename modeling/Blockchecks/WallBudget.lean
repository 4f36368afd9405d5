import Blockchecks.CurlProbe
import Blockchecks.ListScheduling
import Mathlib.Data.Rat.Floor
import Mathlib.Tactic.Linarith

namespace Blockchecks.WallBudget

open StrategyText CurlProbe

/-- What one GET comes to, and the seconds that it takes. -/
structure Reply where
  exchange : Exchange
  seconds : ℚ

/-- The timeout that _session_get passes on. -/
def curlTimeout (req : CurlProbeRequest) : ℚ := if req.googlevideo then min req.timeout 8 else req.timeout

def measured : Exchange → Option ℚ
  | .response _ wall => some wall
  | .requestsError _ wall => some wall
  | .otherError _ => none

/-- A GET takes at most its timeout, and the probe measures what it takes. -/
structure InTime (req : CurlProbeRequest) (reply : Reply) : Prop where
  nonneg : 0 ≤ reply.seconds
  within : reply.seconds ≤ curlTimeout req
  exact : ∀ wall ∈ measured reply.exchange, wall = reply.seconds

section probe

variable (lib : TextLib)

/-- The request of the second GET, if the answer makes one necessary. -/
def followOf (hop : Nat) (req : CurlProbeRequest) (resp : Response) (wall : ℚ) : Option CurlProbeRequest :=
  match classifyGoogleCdn lib req resp resp.content.length (max wall (1 / 1000)) with
  | some _ => none
  | none =>
      let redirectDomain := if req.googlevideo then "googlevideo.com" else String.ofList (lower (resolveHost req))
      if req.googlevideo ∧ hop = 0 ∧ resp.statusCode ∈ redirectStatuses ∧
          classifyHttpStatus lib redirectDomain resp.statusCode resp.location = none then
        googlevideoFollowRequest lib req resp.location
      else none

def probeSeconds (get : Nat → CurlProbeRequest → Reply) (req : CurlProbeRequest) : ℚ :=
  match (get 0 req).exchange with
  | .response resp wall => match followOf lib 0 req resp wall with
    | some next => (get 0 req).seconds + (get 1 next).seconds
    | none => (get 0 req).seconds
  | _ => (get 0 req).seconds

/-- One attempt with the seconds that its GETs take. -/
def attempt (get : Nat → CurlProbeRequest → Reply) (req : CurlProbeRequest) : CurlProbeResult × ℚ :=
  (runCurlProbe lib (fun hop r => (get hop r).exchange) req, probeSeconds lib get req)

/-- The attempts of a loop up to the one that ends it. -/
def loopSeconds (stable quickBreak : Bool) : List (CurlProbeResult × ℚ) → ℚ
  | [] => 0
  | (result, seconds) :: rest =>
      if result.success then
        if !stable then seconds else seconds + loopSeconds stable quickBreak rest
      else if quickBreak then seconds
      else seconds + loopSeconds stable quickBreak rest

/-- The pool of parallel repeats has a thread for each, and leaving it waits for all. -/
def repeatsSeconds (config : Repeats) (get : Nat → Nat → CurlProbeRequest → Reply) (req : CurlProbeRequest) : ℚ :=
  let n := clampRepeats config.repeats
  let attempts := (List.range n).map (fun i => attempt lib (get i) req)
  if config.parallelRepeats ∧ 1 < n then (attempts.map Prod.snd).foldr max 0
  else loopSeconds config.stable config.quickBreak attempts

structure CurlProbeBatch where
  requests : List CurlProbeRequest
  curlParallel : Int := 4
  config : Repeats := {}

def batchWorkers (batch : CurlProbeBatch) : Nat := (max 1 (min batch.curlParallel batch.requests.length)).toNat

/-- The seconds that each request keeps its worker busy; an index tells the requests apart. -/
def batchTasks (batch : CurlProbeBatch) (get : Nat → Nat → Nat → CurlProbeRequest → Reply) : List ℚ :=
  batch.requests.zipIdx.map (fun p =>
    repeatsSeconds lib { batch.config with repeats := clampRepeats batch.config.repeats } (get p.2) p.1)

/-- Runs of run_curl_probe_batch with the second at which they end. -/
def BatchEnds (batch : CurlProbeBatch) (get : Nat → Nat → Nat → CurlProbeRequest → Reply) (finish : ℚ) : Prop :=
  if batch.requests = [] then finish = 0
  else ListScheduling.Drains (List.replicate (batchWorkers batch) 0) (batchTasks lib batch get) finish

end probe

def workerWallTimeout (wallSlack probeTimeout : ℚ) (repeats nDomains curlParallel : Int) (parallelRepeats : Bool)
    (settleSlack : Option ℚ) : ℚ :=
  let r := max 1 repeats
  let n := max 1 nDomains
  let par := max 1 curlParallel
  let waves := ⌈(n : ℚ) / par⌉
  let perWave := if parallelRepeats ∧ 1 < r then probeTimeout else probeTimeout * r
  perWave * waves + max (1 / 2) (settleSlack.getD wallSlack)

/-- The attempts that a task makes one after another. -/
def attemptsInARow (repeats : Int) (parallelRepeats : Bool) : Nat :=
  if parallelRepeats ∧ 1 < clampRepeats repeats then 1 else clampRepeats repeats

/-- The attempts in a row that the budget has time for. -/
def budgetedInARow (repeats : Int) (parallelRepeats : Bool) : Int :=
  if parallelRepeats ∧ 1 < repeats then 1 else max 1 repeats

def rounds (nDomains : Nat) (curlParallel : Int) : Nat := ListScheduling.waves nDomains (max 1 curlParallel).toNat

section covers

variable (lib : TextLib) (wallSlack timeout : ℚ) (repeats : Int) (nDomains : Nat) (curlParallel : Int)
  (parallelRepeats : Bool)

/-- Every batch of requests and every single request with the given parameters ends within
the budget, whatever the servers answer. -/
def Covers : Prop :=
  (∀ (batch : CurlProbeBatch) (get : Nat → Nat → Nat → CurlProbeRequest → Reply) (finish : ℚ),
    batch.requests.length = nDomains → (∀ req ∈ batch.requests, req.timeout = timeout) →
    batch.curlParallel = curlParallel → batch.config.repeats = repeats →
    batch.config.parallelRepeats = parallelRepeats →
    (∀ i a hop req, req.timeout = timeout → InTime req (get i a hop req)) → BatchEnds lib batch get finish →
    finish ≤ workerWallTimeout wallSlack timeout repeats nDomains curlParallel parallelRepeats none) ∧
  (nDomains = 1 → ∀ (config : Repeats) (get : Nat → Nat → CurlProbeRequest → Reply) (req : CurlProbeRequest),
    req.timeout = timeout → config.repeats = repeats → config.parallelRepeats = parallelRepeats →
    (∀ a hop req, req.timeout = timeout → InTime req (get a hop req)) →
    repeatsSeconds lib config get req ≤
      workerWallTimeout wallSlack timeout repeats nDomains curlParallel parallelRepeats none)

/-- Two GETs in each attempt fit into the time. -/
def SecondFits : Prop :=
  2 * min timeout 8 * attemptsInARow repeats parallelRepeats * rounds nDomains curlParallel ≤
    timeout * budgetedInARow repeats parallelRepeats * rounds nDomains curlParallel + max (1 / 2) wallSlack

end covers

section bounds

variable {lib : TextLib} {timeout : ℚ} {hop : Nat} {req next : CurlProbeRequest} {resp : Response} {wall : ℚ}

/-- The second GET is the one that followOf names. -/
theorem classifyResponse_followed (h : followOf lib hop req resp wall = some next)
    (followed : CurlProbeRequest → CurlProbeResult) :
    classifyResponse lib hop followed req resp wall = followed next := by
  rw [followOf] at h
  rw [classifyResponse]
  cases hcdn : classifyGoogleCdn lib req resp resp.content.length (max wall (1 / 1000)) with
  | some cdn =>
      rw [hcdn] at h
      exact absurd h (Option.some_ne_none next).symm
  | none =>
      rw [hcdn] at h
      dsimp only at h ⊢
      rw [h]

theorem followOf_spec (h : followOf lib hop req resp wall = some next) :
    req.googlevideo = true ∧ next.googlevideo = true ∧ next.timeout = req.timeout := by
  rw [followOf] at h
  split at h
  next => exact absurd h (Option.some_ne_none next).symm
  next =>
    obtain ⟨hgoogle, hnext⟩ := Option.ite_none_right_eq_some.mp h
    rw [googlevideoFollowRequest] at hnext
    split at hnext
    next => exact absurd hnext (Option.some_ne_none next).symm
    next =>
      obtain ⟨-, hnext⟩ := Option.ite_none_right_eq_some.mp hnext
      obtain rfl := Option.some.inj hnext
      exact ⟨hgoogle.1, rfl, rfl⟩

/-- What the GETs of one attempt take at most. -/
def perAttempt (timeout : ℚ) : ℚ := max timeout (2 * min timeout 8)

theorem curlTimeout_le (req : CurlProbeRequest) : curlTimeout req ≤ req.timeout := by
  rw [curlTimeout]
  split
  · exact min_le_left _ _
  · exact le_rfl

theorem probeSeconds_bounds {get : Nat → CurlProbeRequest → Reply} (hreq : req.timeout = timeout)
    (hget : ∀ hop req, req.timeout = timeout → InTime req (get hop req)) :
    0 ≤ probeSeconds lib get req ∧ probeSeconds lib get req ≤ perAttempt timeout := by
  have hfirst := hget 0 req hreq
  have halone : (get 0 req).seconds ≤ perAttempt timeout :=
    (hfirst.within.trans ((curlTimeout_le req).trans_eq hreq)).trans (le_max_left _ _)
  rw [probeSeconds]
  split
  next resp wall hexchange =>
    split
    next next hfollow =>
      obtain ⟨hgoogle, hnextGoogle, htimeout⟩ := followOf_spec hfollow
      have hsecond := hget 1 next (htimeout.trans hreq)
      have hfirstWithin := hfirst.within
      have hsecondWithin := hsecond.within
      rw [curlTimeout, if_pos hgoogle, hreq] at hfirstWithin
      rw [curlTimeout, if_pos hnextGoogle, htimeout, hreq] at hsecondWithin
      refine ⟨add_nonneg hfirst.nonneg hsecond.nonneg, le_trans ?_ (le_max_right _ _)⟩
      linarith
    next => exact ⟨hfirst.nonneg, halone⟩
  next => exact ⟨hfirst.nonneg, halone⟩

theorem loopSeconds_le (stable quickBreak : Bool) {attempts : List (CurlProbeResult × ℚ)} {C : ℚ}
    (h : ∀ p ∈ attempts, 0 ≤ p.2 ∧ p.2 ≤ C) (hC : 0 ≤ C) :
    loopSeconds stable quickBreak attempts ≤ attempts.length * C := by
  induction attempts with
  | nil => rw [loopSeconds, List.length_nil, Nat.cast_zero, zero_mul]
  | cons p rest ih =>
      obtain ⟨hnonneg, hle⟩ := h p List.mem_cons_self
      have hrest := ih fun p' hp' => h p' (List.mem_cons_of_mem _ hp')
      have hpos : 0 ≤ (rest.length : ℚ) * C := mul_nonneg (Nat.cast_nonneg _) hC
      rw [loopSeconds, List.length_cons, Nat.cast_succ, add_mul, one_mul]
      split_ifs
      all_goals linarith

theorem perAttempt_pos (hT : 0 < timeout) : 0 < perAttempt timeout := lt_max_of_lt_left hT

theorem foldr_max_le {seconds : List ℚ} {C : ℚ} (hC : 0 ≤ C) (h : ∀ s ∈ seconds, s ≤ C) :
    seconds.foldr max 0 ≤ C := by
  induction seconds with
  | nil => exact hC
  | cons s rest ih =>
      rw [List.foldr_cons]
      exact max_le (h s List.mem_cons_self) (ih fun s' hs => h s' (List.mem_cons_of_mem _ hs))

/-- What one task takes at most. -/
theorem repeatsSeconds_le (config : Repeats) {get : Nat → Nat → CurlProbeRequest → Reply} (hT : 0 < timeout)
    (hreq : req.timeout = timeout) (hget : ∀ a hop req, req.timeout = timeout → InTime req (get a hop req)) :
    repeatsSeconds lib config get req ≤
      attemptsInARow config.repeats config.parallelRepeats * perAttempt timeout := by
  have hC := (perAttempt_pos hT).le
  have hbounds : ∀ p ∈ (List.range (clampRepeats config.repeats)).map (fun i => attempt lib (get i) req),
      0 ≤ p.2 ∧ p.2 ≤ perAttempt timeout := by
    intro p hp
    obtain ⟨i, -, rfl⟩ := List.mem_map.mp hp
    exact probeSeconds_bounds hreq (hget i)
  rw [repeatsSeconds, attemptsInARow]
  split
  next =>
    rw [Nat.cast_one, one_mul]
    refine foldr_max_le hC fun s hs => ?_
    obtain ⟨p, hp, rfl⟩ := List.mem_map.mp hs
    exact (hbounds p hp).2
  next =>
    have hle := loopSeconds_le config.stable config.quickBreak hbounds hC
    rwa [List.length_map, List.length_range] at hle

theorem clampRepeats_clamp (n : Int) : clampRepeats (clampRepeats n) = clampRepeats n := by
  rw [clampRepeats, clampRepeats]
  omega

theorem attemptsInARow_pos (repeats : Int) (parallelRepeats : Bool) : 0 < attemptsInARow repeats parallelRepeats := by
  rw [attemptsInARow]
  split
  · exact Nat.one_pos
  · rw [clampRepeats]
    omega

theorem attempts_le_budgeted (repeats : Int) (parallelRepeats : Bool) :
    (attemptsInARow repeats parallelRepeats : Int) ≤ budgetedInARow repeats parallelRepeats := by
  have hclamp : (clampRepeats repeats : Int) = max 1 (min 10 repeats) := by
    rw [clampRepeats]
    omega
  rw [attemptsInARow, budgetedInARow]
  cases parallelRepeats with
  | false =>
      simp only [Bool.false_eq_true, false_and, if_false]
      omega
  | true =>
      simp only [true_and]
      split
      next hmany => rw [if_pos (by omega)]; rfl
      next hone => split_ifs <;> omega

/-- As many workers as requests make one round, as more workers do. -/
theorem waves_workers {n : Nat} (hn : 0 < n) (par : Int) :
    ListScheduling.waves n (max 1 (min par n)).toNat = rounds n par := by
  rw [rounds]
  by_cases hpar : par ≤ n
  · rw [min_eq_left hpar]
  · have hmin : (max 1 (min par (n : Int))).toNat = n := by omega
    have hfull := ListScheduling.waves_full hn 1
    have hpart : ListScheduling.waves n (max 1 par).toNat = 1 := by
      have hlt : n < (max 1 par).toNat := by omega
      have hone := ListScheduling.waves_part hn hlt 0
      rwa [Nat.mul_zero, Nat.zero_add, Nat.zero_add] at hone
    rw [hmin, hpart]
    rwa [Nat.mul_one] at hfull

theorem ceil_rounds {n : Nat} (hn : 0 < n) (par : Int) :
    ⌈((max 1 (n : Int) : Int) : ℚ) / ((max 1 par : Int) : ℚ)⌉ = (rounds n par : Int) := by
  have hpar : (max 1 par : Int) = ((max 1 par).toNat : Int) := by omega
  have hnat : (max 1 (n : Int) : Int) = n := by omega
  have hpos : 0 < (max 1 par).toNat := by omega
  rw [rounds, hpar, hnat, Int.toNat_natCast]
  generalize (max 1 par).toNat = w at hpos
  obtain ⟨hlow, hhigh⟩ := ListScheduling.waves_spec n hpos
  have hlowQ : (ListScheduling.waves n w : ℚ) * w < n + w := by exact_mod_cast hlow
  have hhighQ : (n : ℚ) ≤ ListScheduling.waves n w * w := by exact_mod_cast hhigh
  have hposQ : (0 : ℚ) < w := by exact_mod_cast hpos
  rw [Int.ceil_eq_iff, Int.cast_natCast, Int.cast_natCast, Int.cast_natCast, lt_div_iff₀ hposQ, div_le_iff₀ hposQ]
  exact ⟨by linarith, hhighQ⟩

theorem workerWallTimeout_eq {wallSlack : ℚ} {repeats : Int} {n : Nat} {par : Int} {parallelRepeats : Bool}
    (hn : 0 < n) : workerWallTimeout wallSlack timeout repeats n par parallelRepeats none =
      timeout * budgetedInARow repeats parallelRepeats * rounds n par + max (1 / 2) wallSlack := by
  have hmany : 1 < max 1 repeats ↔ 1 < repeats := by omega
  rw [workerWallTimeout, budgetedInARow]
  simp only [hmany, ceil_rounds hn, Option.getD_none, Int.cast_natCast]
  split
  · rw [Int.cast_one, mul_one]
  · rfl

end bounds

section slow

/-- The host of a URL without user or port. -/
def authority (url : String) : String :=
  String.ofList ((url.toList.drop "https://".toList.length).takeWhile (· ≠ '/'))

/-- A redirect inside googlevideo. -/
def redirectTarget : String := "https://r2.googlevideo.com/videoplayback"

def redirectResponse : Response where
  statusCode := 302
  content := []
  location := redirectTarget

def slowRequest (timeout : ℚ) : CurlProbeRequest where
  domain := "r1.googlevideo.com"
  timeout := timeout
  googlevideo := true

/-- The first GET ends in the redirect at the last moment, and the second one runs out of time. -/
def slowReply (hop : Nat) (req : CurlProbeRequest) : Reply :=
  if hop = 0 then ⟨.response redirectResponse (curlTimeout req), curlTimeout req⟩
  else ⟨.requestsError "Timeout" (curlTimeout req), curlTimeout req⟩

variable {lib : TextLib} {timeout : ℚ}

theorem slowReply_inTime {req : CurlProbeRequest} (hT : 0 < timeout) (hreq : req.timeout = timeout) (hop : Nat) :
    InTime req (slowReply hop req) := by
  have hnonneg : 0 ≤ curlTimeout req := by
    rw [curlTimeout, hreq]
    split
    · exact le_min hT.le (by norm_num)
    · exact hT.le
  rw [slowReply]
  split
  · exact ⟨hnonneg, le_rfl, fun wall hwall => (Option.some.inj hwall).symm⟩
  · exact ⟨hnonneg, le_rfl, fun wall hwall => (Option.some.inj hwall).symm⟩

/-- The redirect stays in the family, so it is no block page. -/
theorem redirect_accepted (hhost : lib.hostname redirectTarget = "r2.googlevideo.com") :
    classifyHttpStatus lib "googlevideo.com" 302 redirectTarget = none := by
  have hstrip : strip redirectTarget.toList = redirectTarget.toList := by decide +kernel
  have hurl : (contains redirectTarget.toList "://" || startsWith redirectTarget.toList "//") = true := by
    decide +kernel
  have hname : redirectHostname lib redirectTarget = "r2.googlevideo.com".toList := by
    rw [redirectHostname, hstrip, hurl, if_pos rfl, String.ofList_toList, hhost]
    decide +kernel
  have hsafe : isSuspiciousRedirect lib "googlevideo.com" 302 redirectTarget = false := by
    rw [isSuspiciousRedirect, hname]
    decide +kernel
  rw [classifyHttpStatus, hsafe]
  rfl

theorem slow_follow (hhost : lib.hostname redirectTarget = "r2.googlevideo.com") (timeout wall : ℚ) :
    ∃ next, followOf lib 0 (slowRequest timeout) redirectResponse wall = some next := by
  have hcdn : classifyGoogleCdn lib (slowRequest timeout) redirectResponse redirectResponse.content.length
      (max wall (1 / 1000)) = none := rfl
  have hnext : ∃ next, googlevideoFollowRequest lib (slowRequest timeout) redirectTarget = some next := by
    have hplain : ¬ (redirectTarget = "" ∨ contains (lower redirectTarget) "googlevideo.com" = false) := by
      decide +kernel
    have hstart : startsWith redirectTarget.toList "http" = true := by decide +kernel
    have hhostname : contains (String.ofList (lower (lib.hostname redirectTarget))).toList "googlevideo" = true := by
      rw [hhost]
      decide +kernel
    rw [googlevideoFollowRequest, if_neg hplain, hstart, if_pos rfl]
    exact ⟨_, if_pos hhostname⟩
  obtain ⟨next, hnext⟩ := hnext
  refine ⟨next, ?_⟩
  rw [followOf, hcdn]
  refine (if_pos ⟨rfl, rfl, by decide, ?_⟩).trans hnext
  exact redirect_accepted hhost

theorem finishProbe_success (req : CurlProbeRequest) (res : CurlProbeResult) :
    (finishProbe req res).success = res.success := by
  rw [finishProbe]
  split
  · rfl
  · rfl

theorem slow_attempt (hhost : lib.hostname redirectTarget = "r2.googlevideo.com") :
    (attempt lib slowReply (slowRequest timeout)).1.success = false ∧
      (attempt lib slowReply (slowRequest timeout)).2 = 2 * min timeout 8 := by
  obtain ⟨next, hnext⟩ := slow_follow hhost timeout (curlTimeout (slowRequest timeout))
  obtain ⟨-, hgoogle, htimeout⟩ := followOf_spec hnext
  have hfirst : slowReply 0 (slowRequest timeout) =
      ⟨.response redirectResponse (curlTimeout (slowRequest timeout)), curlTimeout (slowRequest timeout)⟩ := rfl
  have hsecond : slowReply 1 next = ⟨.requestsError "Timeout" (curlTimeout next), curlTimeout next⟩ := rfl
  constructor
  · have hfollowed := classifyResponse_followed hnext
      (fun next => probeWithSession lib 1 (fun _ => {}) next (slowReply 1 next).exchange)
    rw [attempt, runCurlProbe, hfirst, probeWithSession, hfollowed, hsecond, probeWithSession, finishProbe_success,
      finishProbe_success]
  · rw [attempt, probeSeconds, hfirst]
    dsimp only
    rw [hnext]
    dsimp only
    rw [hsecond, curlTimeout, curlTimeout, if_pos hgoogle, htimeout, two_mul]
    rfl

theorem loopSeconds_failed {attempts : List (CurlProbeResult × ℚ)} {s : ℚ} (stable : Bool)
    (h : ∀ p ∈ attempts, p.1.success = false ∧ p.2 = s) : loopSeconds stable false attempts = attempts.length * s := by
  induction attempts with
  | nil => rw [loopSeconds, List.length_nil, Nat.cast_zero, zero_mul]
  | cons p rest ih =>
      obtain ⟨hfailed, hs⟩ := h p List.mem_cons_self
      rw [loopSeconds, hfailed, ih fun p' hp' => h p' (List.mem_cons_of_mem _ hp'), List.length_cons, Nat.cast_succ,
        add_mul, one_mul, add_comm, ← hs]
      rfl

theorem foldr_max_eq {seconds : List ℚ} {s : ℚ} (hs : 0 ≤ s) (hne : seconds ≠ []) (h : ∀ x ∈ seconds, x = s) :
    seconds.foldr max 0 = s := by
  refine le_antisymm (foldr_max_le hs fun x hx => (h x hx).le) ?_
  cases seconds with
  | nil => exact absurd rfl hne
  | cons x rest =>
      rw [List.foldr_cons, h x List.mem_cons_self]
      exact le_max_left _ _

theorem slow_repeats (hhost : lib.hostname redirectTarget = "r2.googlevideo.com") (hT : 0 < timeout) (repeats : Int)
    (parallelRepeats : Bool) :
    repeatsSeconds lib { repeats := repeats, parallelRepeats := parallelRepeats } (fun _ => slowReply)
      (slowRequest timeout) = attemptsInARow repeats parallelRepeats * (2 * min timeout 8) := by
  have hattempts : ∀ p ∈ (List.range (clampRepeats repeats)).map (fun _ => attempt lib slowReply (slowRequest timeout)),
      p.1.success = false ∧ p.2 = 2 * min timeout 8 := by
    intro p hp
    obtain ⟨_, -, rfl⟩ := List.mem_map.mp hp
    exact slow_attempt hhost
  rw [repeatsSeconds, attemptsInARow]
  dsimp only
  split
  next hmany =>
    have hpos : (0 : ℚ) ≤ 2 * min timeout 8 := mul_nonneg (by norm_num) (le_min hT.le (by norm_num))
    rw [Nat.cast_one, one_mul]
    refine foldr_max_eq hpos (List.ne_nil_of_length_pos ?_) fun s hs => ?_
    · rw [List.length_map, List.length_map, List.length_range]
      omega
    · obtain ⟨p, hp, rfl⟩ := List.mem_map.mp hs
      exact (hattempts p hp).2
  next => rw [loopSeconds_failed false hattempts, List.length_map, List.length_range]

/-- A batch with such servers alone takes two GETs for every attempt in every round. -/
theorem slow_batch (hhost : lib.hostname redirectTarget = "r2.googlevideo.com") (hT : 0 < timeout) (repeats : Int)
    (parallelRepeats : Bool) (curlParallel : Int) {nDomains : Nat} (hn : 0 < nDomains) :
    ∃ finish, BatchEnds lib ⟨List.replicate nDomains (slowRequest timeout), curlParallel,
        { repeats := repeats, parallelRepeats := parallelRepeats }⟩ (fun _ _ => slowReply) finish ∧
      finish = 2 * min timeout 8 * attemptsInARow repeats parallelRepeats * rounds nDomains curlParallel := by
  have hclamp : attemptsInARow (clampRepeats repeats) parallelRepeats = attemptsInARow repeats parallelRepeats := by
    rw [attemptsInARow, attemptsInARow, clampRepeats_clamp]
  have hworkers : 0 < (max 1 (min curlParallel (nDomains : Int))).toNat := by omega
  have htask : ∀ s ∈ batchTasks lib ⟨List.replicate nDomains (slowRequest timeout), curlParallel,
      { repeats := repeats, parallelRepeats := parallelRepeats }⟩ (fun _ _ => slowReply),
      s = attemptsInARow repeats parallelRepeats * (2 * min timeout 8) := by
    intro s hs
    obtain ⟨p, hp, rfl⟩ := List.mem_map.mp hs
    have hreq : p.1 = slowRequest timeout := by
      have hmem := List.mem_map_of_mem (f := Prod.fst) hp
      rw [List.zipIdx_map_fst] at hmem
      exact List.eq_of_mem_replicate hmem
    rw [hreq, ← hclamp]
    exact slow_repeats hhost hT _ parallelRepeats
  have hpos : 0 < attemptsInARow repeats parallelRepeats * (2 * min timeout 8) := by
    have hmin : 0 < 2 * min timeout 8 := mul_pos (by norm_num) (lt_min hT (by norm_num))
    exact mul_pos (Nat.cast_pos.mpr (attemptsInARow_pos repeats parallelRepeats)) hmin
  have hfree : List.replicate (max 1 (min curlParallel (nDomains : Int))).toNat (0 : ℚ) ≠ [] :=
    List.ne_nil_of_length_pos (by rw [List.length_replicate]; exact hworkers)
  have hrun : ∃ finish, ListScheduling.Drains _ (batchTasks lib ⟨List.replicate nDomains (slowRequest timeout),
      curlParallel, { repeats := repeats, parallelRepeats := parallelRepeats }⟩ (fun _ _ => slowReply)) finish :=
    ListScheduling.exists_drains hfree
  obtain ⟨finish, hdrains⟩ := hrun
  refine ⟨finish, ?_, ?_⟩
  · rw [BatchEnds, if_neg (List.ne_nil_of_length_pos (by rw [List.length_replicate]; exact hn)), batchWorkers]
    rw [List.length_replicate]
    exact hdrains
  · rw [ListScheduling.finish_eq hworkers hpos htask hdrains, batchTasks, List.length_map, List.length_zipIdx,
      List.length_replicate, waves_workers hn, nsmul_eq_mul]
    ring

end slow

section main

variable {lib : TextLib} {wallSlack timeout : ℚ} {repeats : Int} {nDomains : Nat} {curlParallel : Int}
  {parallelRepeats : Bool}

theorem fits_bound (hT : 0 < timeout) (hn : 0 < nDomains)
    (h : SecondFits wallSlack timeout repeats nDomains curlParallel parallelRepeats) :
    attemptsInARow repeats parallelRepeats * perAttempt timeout * rounds nDomains curlParallel ≤
      workerWallTimeout wallSlack timeout repeats nDomains curlParallel parallelRepeats none := by
  have hattempts : (attemptsInARow repeats parallelRepeats : ℚ) ≤ budgetedInARow repeats parallelRepeats := by
    exact_mod_cast attempts_le_budgeted repeats parallelRepeats
  have hrounds : (0 : ℚ) ≤ rounds nDomains curlParallel := Nat.cast_nonneg _
  rw [workerWallTimeout_eq hn, perAttempt]
  rcases max_choice timeout (2 * min timeout 8) with hmax | hmax
  · -- The one GET of an attempt is the budget's.
    rw [hmax]
    have hrow : attemptsInARow repeats parallelRepeats * timeout ≤
        timeout * budgetedInARow repeats parallelRepeats := by
      rw [mul_comm]
      exact mul_le_mul_of_nonneg_left hattempts hT.le
    have hall := mul_le_mul_of_nonneg_right hrow hrounds
    have hslack : (0 : ℚ) ≤ max (1 / 2) wallSlack := le_max_of_le_left (by norm_num)
    linarith
  · rw [hmax, mul_comm (attemptsInARow repeats parallelRepeats : ℚ)]
    exact h

theorem covers_of_fits (hT : 0 < timeout) (hn : 0 < nDomains)
    (h : SecondFits wallSlack timeout repeats nDomains curlParallel parallelRepeats) :
    Covers lib wallSlack timeout repeats nDomains curlParallel parallelRepeats := by
  have hbound := fits_bound hT hn h
  constructor
  · intro batch get finish hlength hreqs hparallel hrepeats hmode hget hends
    have hne : batch.requests ≠ [] := List.ne_nil_of_length_pos (hlength ▸ hn)
    rw [BatchEnds, if_neg hne, batchWorkers, hparallel, hlength] at hends
    have hworkers : 0 < (max 1 (min curlParallel (nDomains : Int))).toNat := by omega
    have htask : ∀ s ∈ batchTasks lib batch get,
        s ≤ attemptsInARow repeats parallelRepeats * perAttempt timeout := by
      intro s hs
      obtain ⟨p, hp, rfl⟩ := List.mem_map.mp hs
      have hreq : p.1 ∈ batch.requests := by
        have hmem := List.mem_map_of_mem (f := Prod.fst) hp
        rwa [List.zipIdx_map_fst] at hmem
      have hle : repeatsSeconds lib { batch.config with repeats := clampRepeats batch.config.repeats } (get p.2) p.1 ≤ _ :=
        repeatsSeconds_le _ hT (hreqs p.1 hreq) (hget p.2)
      have hclamp : attemptsInARow (clampRepeats batch.config.repeats) batch.config.parallelRepeats =
          attemptsInARow repeats parallelRepeats := by
        rw [attemptsInARow, attemptsInARow, clampRepeats_clamp, hrepeats, hmode]
      change _ ≤ (attemptsInARow (clampRepeats batch.config.repeats) batch.config.parallelRepeats : ℚ) * _ at hle
      rwa [hclamp] at hle
    have hnonneg : 0 ≤ attemptsInARow repeats parallelRepeats * perAttempt timeout :=
      mul_nonneg (Nat.cast_nonneg _) (perAttempt_pos hT).le
    have hfinish := ListScheduling.finish_le hworkers hnonneg htask hends
    rw [batchTasks, List.length_map, List.length_zipIdx, hlength, waves_workers hn, nsmul_eq_mul, mul_comm] at hfinish
    exact hfinish.trans hbound
  · rintro rfl config get req hreq hrepeats hmode hget
    have hle : repeatsSeconds lib config get req ≤ _ := repeatsSeconds_le config hT hreq hget
    rw [hrepeats, hmode] at hle
    have hone : (1 : ℚ) ≤ rounds 1 curlParallel := by
      have hspec := (ListScheduling.waves_spec 1 (w := (max 1 curlParallel).toNat) (by omega)).2
      exact_mod_cast Nat.pos_of_mul_pos_right hspec
    refine hle.trans (le_trans (le_mul_of_one_le_right ?_ hone) hbound)
    exact mul_nonneg (Nat.cast_nonneg _) (perAttempt_pos hT).le

theorem covers_nothing (hT : 0 < timeout) : Covers lib wallSlack timeout repeats 0 curlParallel parallelRepeats := by
  refine ⟨?_, fun h => absurd h (Nat.zero_ne_one)⟩
  intro batch get finish hlength _ _ _ _ _ hends
  rw [BatchEnds, if_pos (List.length_eq_zero_iff.mp hlength)] at hends
  have hr : (0 : ℚ) ≤ (max 1 repeats : Int) := by exact_mod_cast (by omega : (0 : Int) ≤ max 1 repeats)
  have hwaves : (0 : ℚ) ≤ ⌈((max 1 ((0 : Nat) : Int) : Int) : ℚ) / ((max 1 curlParallel : Int) : ℚ)⌉ := by
    have hpar : (0 : ℚ) ≤ (max 1 curlParallel : Int) := by
      exact_mod_cast (by omega : (0 : Int) ≤ max 1 curlParallel)
    exact Int.cast_nonneg (Int.ceil_nonneg (div_nonneg (by norm_num) hpar))
  have hslack : (0 : ℚ) ≤ max (1 / 2) wallSlack := le_max_of_le_left (by norm_num)
  rw [hends, workerWallTimeout]
  refine add_nonneg (mul_nonneg ?_ hwaves) hslack
  split
  · exact hT.le
  · exact mul_nonneg hT.le hr

theorem not_covers (hT : 0 < timeout) (hhost : lib.hostname redirectTarget = "r2.googlevideo.com")
    (hn : 0 < nDomains) (h : ¬ SecondFits wallSlack timeout repeats nDomains curlParallel parallelRepeats) :
    ¬ Covers lib wallSlack timeout repeats nDomains curlParallel parallelRepeats := by
  rintro ⟨hbatch, -⟩
  obtain ⟨finish, hends, hfinish⟩ := slow_batch hhost hT repeats parallelRepeats curlParallel hn
  have hle := hbatch _ _ finish List.length_replicate (fun req hreq => by rw [List.eq_of_mem_replicate hreq]; rfl)
    rfl rfl rfl (fun _ _ hop req hreq => slowReply_inTime hT hreq hop) hends
  rw [workerWallTimeout_eq hn, hfinish] at hle
  exact h hle

/-- The budget covers the worst case exactly if it has time for two GETs in each attempt. -/
theorem wall_budget_covers_iff (lib : TextLib) (wallSlack timeout : ℚ) (repeats : Int) (nDomains : Nat) (curlParallel : Int)
    (parallelRepeats : Bool) (hT : 0 < timeout) (hhost : lib.hostname redirectTarget = "r2.googlevideo.com") :
    Covers lib wallSlack timeout repeats nDomains curlParallel parallelRepeats ↔
      nDomains = 0 ∨ SecondFits wallSlack timeout repeats nDomains curlParallel parallelRepeats := by
  rcases Nat.eq_zero_or_pos nDomains with rfl | hn
  · exact iff_of_true (covers_nothing hT) (Or.inl rfl)
  · rw [or_iff_right (Nat.ne_of_gt hn)]
    refine ⟨fun h => ?_, covers_of_fits hT hn⟩
    by_contra hfits
    exact not_covers hT hhost hn hfits h

/-- From 16 seconds on the two GETs of a probe take no longer than its timeout. -/
theorem long_timeout_covers : Covers ⟨authority, fun _ => "", id⟩ 3 16 10 100 8 false :=
  (wall_budget_covers_iff ⟨authority, fun _ => "", id⟩ 3 16 10 100 8 false (by norm_num) (by decide +kernel)).mpr (Or.inr (by
    have hattempts : attemptsInARow 10 false = 10 := rfl
    have hbudgeted : budgetedInARow 10 false = 10 := rfl
    rw [SecondFits, hattempts, hbudgeted, min_eq_right (by norm_num), max_eq_right (by norm_num)]
    norm_num))

/-- One googlevideo probe of five seconds can take ten, and its budget is eight. -/
theorem one_hop_too_long : ¬ ∀ (lib : TextLib) (wallSlack timeout : ℚ) (repeats : Int) (nDomains : Nat)
    (curlParallel : Int) (parallelRepeats : Bool), 0 < timeout →
    Covers lib wallSlack timeout repeats nDomains curlParallel parallelRepeats := by
  intro h
  have hfits : ¬ SecondFits 3 5 1 1 1 false := by
    have hattempts : attemptsInARow 1 false = 1 := rfl
    have hbudgeted : budgetedInARow 1 false = 1 := rfl
    have hrounds : rounds 1 1 = 1 := rfl
    rw [SecondFits, hattempts, hbudgeted, hrounds, min_eq_left (by norm_num), max_eq_right (by norm_num)]
    norm_num
  have hhost : (⟨authority, fun _ => "", id⟩ : TextLib).hostname redirectTarget = "r2.googlevideo.com" := by
    decide +kernel
  exact not_covers (by norm_num) hhost Nat.one_pos hfits (h _ 3 5 1 1 1 false (by norm_num))

end main

end Blockchecks.WallBudget
