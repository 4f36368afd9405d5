import Blockchecks.QueueRuns

namespace Blockchecks.FanoutBatches

open OrderedDict ScanWeights StrategyText TcpFanout AdaptiveQueue AdaptiveJobQueue QueueInvariant QueuePop QueueRuns
open Runs

/-- The slices bucket[i : i + n] for i in range(0, len(bucket), n). -/
def slices (n : Nat) (bucket : List String) : List (List String) :=
  (List.range ((bucket.length + n - 1) / n)).map (fun i => (bucket.drop (i * n)).take n)

structure Fanout where
  batches : List (List String) := []
  bucket : List String := []
  bucketProfile : Option CurlProfile := none

namespace Fanout

def flush (s : Fanout) (n : Nat) : Fanout :=
  if s.bucket = [] then s else ⟨s.batches ++ slices n s.bucket, [], none⟩

def add (n : Nat) (profile : String → CurlProfile) (s : Fanout) (domain : String) : Fanout :=
  let prof := profile domain
  if prof.special then
    let s := s.flush n
    { s with batches := s.batches ++ [[domain]] }
  else match s.bucketProfile with
    | none => { s with bucketProfile := some prof, bucket := [domain] }
    | some bucketProfile =>
        if profilesCompatible bucketProfile prof then { s with bucket := s.bucket ++ [domain] }
        else { s.flush n with bucketProfile := some prof, bucket := [domain] }

end Fanout

def fanoutBatches (domains : List String) (protocol : String) (disableEch : Bool) (curlParallel : Int) :
    List (List String) :=
  let n := (max 1 curlParallel).toNat
  if n = 1 then domains.map (fun d => [d])
  else ((domains.foldl (Fanout.add n (curlProfile · protocol disableEch)) {}).flush n).batches

theorem flatten_slices_take (n m : Nat) (bucket : List String) :
    ((List.range m).map (fun i => (bucket.drop (i * n)).take n)).flatten = bucket.take (m * n) := by
  induction m with
  | zero => simp
  | succ m ih =>
      rw [List.range_succ, List.map_append, List.flatten_append, ih, List.map_singleton, List.flatten_singleton,
        Nat.succ_mul, List.take_add]

theorem le_slices_mul {n : Nat} (hn : 0 < n) (length : Nat) : length ≤ (length + n - 1) / n * n := by
  have hdiv := Nat.div_add_mod (length + n - 1) n
  have hmod := Nat.mod_lt (length + n - 1) hn
  rw [Nat.mul_comm] at hdiv
  omega

theorem flatten_slices {n : Nat} (hn : 0 < n) (bucket : List String) : (slices n bucket).flatten = bucket := by
  rw [slices, flatten_slices_take]
  exact List.take_of_length_le (le_slices_mul hn bucket.length)

theorem mem_slices {n : Nat} (hn : 0 < n) {bucket batch : List String} (h : batch ∈ slices n bucket) :
    batch ≠ [] ∧ batch.length ≤ n ∧ ∀ d ∈ batch, d ∈ bucket := by
  obtain ⟨i, hi, rfl⟩ := List.mem_map.mp h
  have hlt : i * n < bucket.length := by
    have hle : (i + 1) * n ≤ bucket.length + n - 1 :=
      (Nat.mul_le_mul_right n (List.mem_range.mp hi)).trans (Nat.div_mul_le_self _ n)
    rw [Nat.succ_mul] at hle
    omega
  refine ⟨?_, List.length_take_le n _, fun d hd => List.mem_of_mem_drop (List.mem_of_mem_take hd)⟩
  apply List.ne_nil_of_length_pos
  rw [List.length_take, List.length_drop]
  omega

/-- What the policy asks of one batch. -/
structure BatchOk (n : Nat) (profile : String → CurlProfile) (batch : List String) : Prop where
  nonempty : batch ≠ []
  size : batch.length ≤ n
  solo : ∀ d ∈ batch, (profile d).special = true → batch = [d]
  compatible : ∀ d ∈ batch, ∀ d' ∈ batch, profilesCompatible (profile d) (profile d') = true

/-- The loop invariant: finished batches are in order, the bucket holds the domains since
the last one, all of the bucket's profile and none special. -/
structure Filling (n : Nat) (profile : String → CurlProfile) (seen : List String) (s : Fanout) : Prop where
  order : s.batches.flatten ++ s.bucket = seen
  batches : ∀ batch ∈ s.batches, BatchOk n profile batch
  plain : ∀ d ∈ s.bucket, (profile d).special = false
  alike : ∀ d ∈ s.bucket, ∃ prof, s.bucketProfile = some prof ∧ profilesCompatible prof (profile d) = true

theorem profilesCompatible_iff {a b : CurlProfile} : profilesCompatible a b = true ↔ a = b := by
  obtain ⟨_, _, _⟩ := a
  obtain ⟨_, _, _⟩ := b
  simp [profilesCompatible]

theorem batchOk_singleton {n : Nat} (hn : 0 < n) (profile : String → CurlProfile) (d : String) :
    BatchOk n profile [d] where
  nonempty := List.cons_ne_nil d []
  size := hn
  solo e he _ := by rw [List.mem_singleton.mp he]
  compatible e he e' he' := by
    rw [List.mem_singleton.mp he, List.mem_singleton.mp he', profilesCompatible_iff]

variable {n : Nat} {profile : String → CurlProfile} {seen : List String} {s : Fanout}

theorem Filling.flush (hn : 0 < n) (h : Filling n profile seen s) :
    Filling n profile seen (s.flush n) ∧ (s.flush n).bucket = [] := by
  rw [Fanout.flush]
  split
  next hempty => exact ⟨h, hempty⟩
  next =>
    refine ⟨⟨?_, ?_, fun d hd => absurd hd List.not_mem_nil, fun d hd => absurd hd List.not_mem_nil⟩, rfl⟩
    · rw [List.flatten_append, flatten_slices hn, List.append_nil]
      exact h.order
    · intro batch hbatch
      rcases List.mem_append.mp hbatch with hbatch | hbatch
      · exact h.batches batch hbatch
      obtain ⟨hne, hsize, hsub⟩ := mem_slices hn hbatch
      refine ⟨hne, hsize, fun d hd hspecial => ?_, fun d hd d' hd' => ?_⟩
      · exact absurd hspecial (by rw [h.plain d (hsub d hd)]; exact Bool.false_ne_true)
      · obtain ⟨prof, hprof, hd⟩ := h.alike d (hsub d hd)
        obtain ⟨prof', hprof', hd'⟩ := h.alike d' (hsub d' hd')
        obtain rfl := Option.some.inj (hprof.symm.trans hprof')
        rw [profilesCompatible_iff] at hd hd' ⊢
        exact hd.symm.trans hd'

/-- A bucket of one plain domain, opened after the earlier batches are written. -/
theorem Filling.open (h : Filling n profile seen s) (hempty : s.bucket = []) {domain : String}
    (hplain : (profile domain).special = false) :
    Filling n profile (seen ++ [domain]) { s with bucketProfile := some (profile domain), bucket := [domain] } where
  order := by
    have horder := h.order
    rw [hempty, List.append_nil] at horder
    rw [horder]
  batches := h.batches
  plain d hd := by rw [List.mem_singleton.mp hd, hplain]
  alike d hd := ⟨_, rfl, by rw [List.mem_singleton.mp hd, profilesCompatible_iff]⟩

theorem Filling.add (hn : 0 < n) (h : Filling n profile seen s) (domain : String) :
    Filling n profile (seen ++ [domain]) (s.add n profile domain) := by
  obtain ⟨hflush, hempty⟩ := h.flush hn
  rw [Fanout.add]
  split
  · refine ⟨?_, ?_, ?_, ?_⟩
    · have horder := hflush.order
      rw [hempty, List.append_nil] at horder
      rw [List.flatten_append, List.flatten_singleton, hempty, List.append_nil, horder]
    · intro batch hbatch
      rcases List.mem_append.mp hbatch with hbatch | hbatch
      · exact hflush.batches batch hbatch
      · exact List.mem_singleton.mp hbatch ▸ batchOk_singleton hn profile domain
    · exact hflush.plain
    · exact hflush.alike
  next hspecial =>
    have hplain : (profile domain).special = false := Bool.not_eq_true _ ▸ hspecial
    split
    next hnone =>
      refine h.open (List.eq_nil_iff_forall_not_mem.mpr fun d hd => ?_) hplain
      obtain ⟨prof, hprof, _⟩ := h.alike d hd
      exact absurd (hnone.symm.trans hprof) (Option.some_ne_none prof).symm
    next prof hprof =>
      split
      next hsame =>
        refine ⟨?_, h.batches, ?_, ?_⟩
        · rw [← List.append_assoc, h.order]
        · intro d hd
          rcases List.mem_append.mp hd with hd | hd
          · exact h.plain d hd
          · rw [List.mem_singleton.mp hd, hplain]
        · intro d hd
          rcases List.mem_append.mp hd with hd | hd
          · exact h.alike d hd
          · exact ⟨prof, hprof, List.mem_singleton.mp hd ▸ hsame⟩
      · exact hflush.open hempty hplain

theorem Filling.run (hn : 0 < n) (h : Filling n profile seen s) (domains : List String) :
    Filling n profile (seen ++ domains) (domains.foldl (Fanout.add n profile) s) := by
  induction domains generalizing seen s with
  | nil =>
      rw [List.append_nil]
      exact h
  | cons domain domains ih =>
      have hstep := ih (h.add hn domain)
      rw [List.append_assoc] at hstep
      exact hstep

theorem fanoutBatches_ok (domains : List String) (protocol : String) (disableEch : Bool) (curlParallel : Int) :
    (fanoutBatches domains protocol disableEch curlParallel).flatten = domains ∧
      ∀ batch ∈ fanoutBatches domains protocol disableEch curlParallel,
        BatchOk (max 1 curlParallel).toNat (curlProfile · protocol disableEch) batch := by
  have hn : 0 < (max 1 curlParallel).toNat := by omega
  rw [fanoutBatches]
  split
  · refine ⟨?_, fun batch hbatch => ?_⟩
    · rw [← List.flatMap_def, List.flatMap_singleton']
    · obtain ⟨d, _, rfl⟩ := List.mem_map.mp hbatch
      exact batchOk_singleton hn _ d
  · have hstart : Filling (max 1 curlParallel).toNat (curlProfile · protocol disableEch) [] {} :=
      ⟨rfl, fun _ h => absurd h List.not_mem_nil, fun _ h => absurd h List.not_mem_nil,
        fun _ h => absurd h List.not_mem_nil⟩
    obtain ⟨hdone, hempty⟩ := (hstart.run hn domains).flush hn
    have horder := hdone.order
    rw [hempty, List.append_nil] at horder
    exact ⟨horder, hdone.batches⟩

/-- The jobs taken so far, all of the first one's label and profile: they were pending in
the queue that the call started with and are pending no more. -/
structure Taken (start : AdaptiveJobQueue) (label : String) (prof : CurlProfile) (profile : String → CurlProfile)
    (q : AdaptiveJobQueue) (batch : List AdaptiveJob) : Prop where
  pending : ∀ job ∈ batch, start.pending.get? job.key = some job
  gone : ∀ job ∈ batch, q.pending.get? job.key = none
  label : ∀ job ∈ batch, job.item.label = label
  profile : ∀ job ∈ batch, profile job.domain = prof
  subset : ∀ k job, q.pending.get? k = some job → start.pending.get? k = some job

theorem Taken.take {start q : AdaptiveJobQueue} {label : String} {prof : CurlProfile}
    {batch : List AdaptiveJob} {dom : String} {job : AdaptiveJob} (hv : Valid start)
    (h : Taken start label prof profile q batch) (hprof : profile dom = prof)
    (hget : q.pending.get? (label, dom) = some job) :
    Taken start label prof profile (q.dropPending (label, dom)).2 (batch ++ [job]) := by
  have hstart := h.subset _ _ hget
  have hkey : job.key = (label, dom) := hv.keyed _ _ hstart
  have hdom : job.domain = dom := congrArg Prod.snd hkey
  refine ⟨fun j hj => ?_, fun j hj => ?_, fun j hj => ?_, fun j hj => ?_, fun k other hother => ?_⟩
  · rcases List.mem_append.mp hj with hj | hj
    · exact h.pending j hj
    · rw [List.mem_singleton.mp hj, hkey, hstart]
  · rw [get?_dropPending]
    split
    · rfl
    next hne =>
      rcases List.mem_append.mp hj with hj | hj
      · exact h.gone j hj
      · exact absurd ((List.mem_singleton.mp hj) ▸ hkey) hne
  · rcases List.mem_append.mp hj with hj | hj
    · exact h.label j hj
    · rw [List.mem_singleton.mp hj]
      exact congrArg Prod.fst hkey
  · rcases List.mem_append.mp hj with hj | hj
    · exact h.profile j hj
    · rw [List.mem_singleton.mp hj, hdom, hprof]
  · rw [get?_dropPending] at hother
    split at hother
    · exact absurd hother (Option.some_ne_none other).symm
    · exact h.subset k other hother

theorem batchLoop_taken {start : AdaptiveJobQueue} (hv : Valid start) (first : AdaptiveJob) {maxSize : Nat}
    (protocol : String) (disableEch : Bool) {q : AdaptiveJobQueue} {batch : List AdaptiveJob} (doms : List String)
    (h : Taken start first.item.label (curlProfile first.domain protocol disableEch)
      (curlProfile · protocol disableEch) q batch) (hsize : batch.length ≤ maxSize) :
    Taken start first.item.label (curlProfile first.domain protocol disableEch) (curlProfile · protocol disableEch)
        (batchLoop first maxSize protocol disableEch q batch doms).2
        (batchLoop first maxSize protocol disableEch q batch doms).1 ∧
      (batchLoop first maxSize protocol disableEch q batch doms).1.length ≤ maxSize := by
  induction doms generalizing q batch with
  | nil => exact ⟨h, hsize⟩
  | cons dom doms ih =>
      rw [batchLoop]
      split
      · exact ⟨h, hsize⟩
      next hroom =>
        split
        · exact ih h hsize
        · split
          · exact ih h hsize
          next hprof =>
            have hsame : curlProfile dom protocol disableEch = curlProfile first.domain protocol disableEch := by
              rw [Bool.not_eq_true, Bool.not_eq_false', profilesCompatible_iff] at hprof
              exact hprof.symm
            have hfst := dropPending_fst q (first.item.label, dom)
            split
            next job q₁ hq =>
              have hget : q.pending.get? (first.item.label, dom) = some job := by rw [← hfst, hq]
              have htake := h.take hv hsame hget
              rw [hq] at htake
              refine ih htake ?_
              rw [List.length_append, List.length_singleton]
              omega
            next q₁ hq =>
              have hsame : q₁ = q := by
                rw [hq] at hfst
                rw [dropPending, ← hfst] at hq
                exact (congrArg Prod.snd hq).symm
              exact hsame ▸ ih h hsize

/-- What the policy asks of the jobs that one call hands out. -/
structure JobsOk (maxSize : Int) (profile : String → CurlProfile) (q q' : AdaptiveJobQueue)
    (batch : List AdaptiveJob) : Prop where
  size : (batch.length : Int) ≤ max 1 maxSize
  label : ∀ job ∈ batch, ∀ other ∈ batch, job.item.label = other.item.label
  compatible : ∀ job ∈ batch, ∀ other ∈ batch, profilesCompatible (profile job.domain) (profile other.domain) = true
  solo : ∀ job ∈ batch, (profile job.domain).special = true → batch = [job]
  pending : ∀ job ∈ batch, q.pending.get? job.key = some job
  gone : ∀ job ∈ batch, q'.pending.get? job.key = none

theorem maybeCompactHeap_pending (q : AdaptiveJobQueue) : q.maybeCompactHeap.pending = q.pending := by
  rw [maybeCompactHeap]
  split <;> rfl

theorem Taken.jobsOk {start q : AdaptiveJobQueue} {label : String} {prof : CurlProfile} {batch : List AdaptiveJob}
    {maxSize : Int} (h : Taken start label prof profile q batch) (hsize : (batch.length : Int) ≤ max 1 maxSize)
    (hsolo : prof.special = true → batch.length ≤ 1) : JobsOk maxSize profile start q batch where
  size := hsize
  label job hjob other hother := (h.label job hjob).trans (h.label other hother).symm
  compatible job hjob other hother := by
    rw [profilesCompatible_iff, h.profile job hjob, h.profile other hother]
  solo job hjob hspecial := by
    rw [h.profile job hjob] at hspecial
    have hpos := List.length_pos_of_mem hjob
    obtain ⟨single, rfl⟩ := List.length_eq_one_iff.mp (Nat.le_antisymm (hsolo hspecial) hpos)
    rw [List.mem_singleton.mp hjob]
  pending := h.pending
  gone := h.gone

theorem popBatch_ok {q : AdaptiveJobQueue} (hv : Valid q) (maxSize : Int) (protocol : String) (disableEch : Bool)
    (rng : Rng) (order : List Key) :
    ∃ batch q', q.popBatch maxSize.toNat protocol disableEch rng order = some (batch, q') ∧
      JobsOk maxSize (curlProfile · protocol disableEch) q q' batch := by
  obtain ⟨r, q₁, hpop, hv₁, hspec⟩ := pop_spec hv ∅ rng
  rw [popBatch]
  simp only [hpop, Option.bind_eq_bind, Option.bind_some]
  cases r with
  | none =>
      exact ⟨[], q₁, rfl, ⟨by rw [List.length_nil]; omega, fun _ h => absurd h List.not_mem_nil,
        fun _ h => absurd h List.not_mem_nil, fun _ h => absurd h List.not_mem_nil,
        fun _ h => absurd h List.not_mem_nil, fun _ h => absurd h List.not_mem_nil⟩⟩
  | some first =>
      obtain ⟨hpending, _, hgone⟩ := hspec.taken first rfl
      have htaken : Taken q first.item.label (curlProfile first.domain protocol disableEch)
          (curlProfile · protocol disableEch) q₁ [first] := by
        refine ⟨fun j hj => ?_, fun j hj => ?_, fun j hj => ?_, fun j hj => ?_, hspec.subset⟩ <;>
          obtain rfl := List.mem_singleton.mp hj
        · exact hpending
        · exact hgone
        · rfl
        · rfl
      have hone : JobsOk maxSize (curlProfile · protocol disableEch) q q₁ [first] :=
        htaken.jobsOk (by rw [List.length_singleton]; omega) (fun _ => Nat.le_refl 1)
      dsimp only
      split
      · exact ⟨[first], q₁, rfl, hone⟩
      next hmore =>
        split
        · exact ⟨[first], q₁, rfl, hone⟩
        next hplain =>
          have hfirst : [first].length ≤ maxSize.toNat := by
            rw [List.length_singleton]
            omega
          obtain ⟨hloop, hsize⟩ := batchLoop_taken hv first protocol disableEch
            (q₁.pendingDomainsForStrategy first.item.label order) htaken hfirst
          refine ⟨_, _, rfl, Taken.jobsOk ⟨hloop.pending, ?_, hloop.label, hloop.profile, ?_⟩ (by omega)
            (fun h => absurd h hplain)⟩
          · rw [maybeCompactHeap_pending]
            exact hloop.gone
          · rw [maybeCompactHeap_pending]
            exact hloop.subset

/-- Fan-out keeps the domains in order in batches that follow the policy, and so does every
batch that a reachable queue hands out. -/
theorem batches_follow_policy :
    (∀ (domains : List String) (protocol : String) (disableEch : Bool) (curlParallel : Int),
      (fanoutBatches domains protocol disableEch curlParallel).flatten = domains ∧
        ∀ batch ∈ fanoutBatches domains protocol disableEch curlParallel,
          BatchOk (max 1 curlParallel).toNat (curlProfile · protocol disableEch) batch) ∧
    ∀ (items : List StrategyItem) (domains : List String) (weights : Weights) (epsilon : ℚ)
      (skipDomains : Finset String) (skipKeys : Finset Key) (ops : List Op),
      ∃ q, run call (build items domains weights epsilon skipDomains skipKeys) ops = some q ∧
        ∀ (maxSize : Int) (protocol : String) (disableEch : Bool) (rng : Rng) (order : List Key),
          ∃ batch q', q.popBatch maxSize.toNat protocol disableEch rng order = some (batch, q') ∧
            JobsOk maxSize (curlProfile · protocol disableEch) q q' batch := by
  refine ⟨fanoutBatches_ok, fun items domains weights epsilon skipDomains skipKeys ops => ?_⟩
  obtain ⟨q, hrun, hv⟩ := run_total call_valid (build_valid items domains weights epsilon skipDomains skipKeys) ops
  exact ⟨q, hrun, popBatch_ok hv⟩

end Blockchecks.FanoutBatches
