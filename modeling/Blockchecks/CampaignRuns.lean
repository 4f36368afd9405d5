import Blockchecks.MatrixFingerprint
import Blockchecks.ResumeModes

namespace Blockchecks.CampaignRuns

open MatrixFingerprint ResumeModes ResumeSkip RunLog RunStore Runs

structure RunRow where
  id : Nat
  fingerprint : String

structure Store where
  runs : List RunRow
  db : Db

namespace Store

variable (store : Store)

def insertRun (fp : String) : Store × Nat :=
  let runId := nextId (store.runs.map RunRow.id)
  ({ store with runs := store.runs ++ [⟨runId, fp⟩] }, runId)

def beginRun (useResume : Bool) (fp : String) : Store × Nat :=
  if useResume ∧ fp ≠ "" then
    match (store.runs.filter (fun row => row.fingerprint = fp)).getLast? with
    | some found => (store, found.id)
    | none => store.insertRun fp
  else store.insertRun fp

end Store

/-- A session: it begins a run and logs its results there. -/
structure Session where
  campaign : Campaign
  resume : Bool
  entries : List TcpEntry

/-- The store after some sessions, and each of them with the run it began. -/
structure History where
  store : Store
  begun : List (Nat × Session)

def empty : History := ⟨⟨[], emptyDb⟩, []⟩

variable (hash : String → String)

namespace History

variable (h : History)

def begin (s : Session) : Store × Nat :=
  h.store.beginRun s.resume (s.campaign.buildMatrixFingerprint hash)

def operate (s : Session) : History :=
  let (store, runId) := h.begin hash s
  ⟨{ store with db := writeAll store.db runId s.entries }, h.begun ++ [(runId, s)]⟩

end History

def step (h : History) (s : Session) : Option History := some (h.operate hash s)

/-- The sessions that began the run which this one begins. -/
def Shares (h : History) (s e : Session) : Prop := ((h.begin hash s).2, e) ∈ h.begun

/-- The run holds sessions of one kind only, and what a result of the run makes
it skip, a session of that kind has logged. -/
def StaysInKind (h : History) (s : Session) : Prop :=
  (∀ e, Shares hash h s e → SameKind e.campaign s.campaign) ∧
    ∀ (proto : String) (limit : Int) (key : String × String),
      (h.store.db.hasTcpResult (h.begin hash s).2 key.1 key.2 proto = true ∨
        key ∈ h.store.db.getResumeSkipTcpKeys (some (h.begin hash s).2) proto limit) →
      ∃ e, Shares hash h s e ∧ SameKind e.campaign s.campaign ∧
        ∃ entry ∈ e.entries, entry.proto = proto ∧ entryKey entry = key

def BreaksAlike (h : History) (s : Session) : Prop :=
  ∀ e, Shares hash h s e → SameBreaks e.campaign s.campaign

instance (h : History) (s : Session) : Decidable (BreaksAlike hash h s) :=
  decidable_of_iff (∀ p ∈ h.begun, p.1 = (h.begin hash s).2 → SameBreaks p.2.campaign s.campaign)
    ⟨fun hall _ he => hall _ he rfl, fun hall p hp hrun => hall p.2 (show (_, p.2) ∈ _ from hrun ▸ hp)⟩

/-- No two of the texts that are hashed have one hash. -/
def CollisionFree (sessions : List Session) : Prop :=
  ∀ s ∈ sessions, ∀ e ∈ sessions, hash s.campaign.text = hash e.campaign.text →
    s.campaign.text = e.campaign.text

instance (sessions : List Session) : Decidable (CollisionFree hash sessions) :=
  inferInstanceAs (Decidable (∀ s ∈ sessions, ∀ e ∈ sessions, _ → _))

structure Inv (sessions : List Session) (h : History) : Prop where
  ids : (h.store.runs.map RunRow.id).Nodup
  begun : ∀ p ∈ h.begun, p.2 ∈ sessions ∧
    ⟨p.1, p.2.campaign.buildMatrixFingerprint hash⟩ ∈ h.store.runs
  logged : ∀ l ∈ log h.store.db, ∃ p ∈ h.begun, ∃ entry ∈ p.2.entries, l = loggedEntry p.1 entry

variable {hash} {sessions : List Session} {h : History} {s e : Session} {store : Store} {fp : String}

theorem insertRun_ids (hids : (store.runs.map RunRow.id).Nodup) (fp : String) :
    ((store.insertRun fp).1.runs.map RunRow.id).Nodup ∧ (store.insertRun fp).2 ∉ store.runs.map RunRow.id := by
  have hfresh : nextId (store.runs.map RunRow.id) ∉ store.runs.map RunRow.id :=
    fun hmem => Nat.lt_irrefl _ (lt_nextId hmem)
  refine ⟨?_, hfresh⟩
  rw [Store.insertRun, List.map_append, List.map_singleton, ← List.concat_eq_append]
  exact List.Nodup.concat hfresh hids

/-- A run begins as a new row, or it is one that the store has already. -/
theorem beginRun_cases (store : Store) (useResume : Bool) (fp : String) :
    store.beginRun useResume fp = store.insertRun fp ∨
      ∃ row ∈ store.runs, row.fingerprint = fp ∧ store.beginRun useResume fp = (store, row.id) := by
  rw [Store.beginRun]
  split
  · split
    next found hlast =>
      obtain ⟨hrow, hfp⟩ := List.mem_filter.mp (List.mem_of_getLast? hlast)
      exact Or.inr ⟨found, hrow, of_decide_eq_true hfp, rfl⟩
    · exact Or.inl rfl
  · exact Or.inl rfl

theorem inv_empty : Inv hash sessions empty :=
  ⟨List.nodup_nil, fun _ hp => absurd hp List.not_mem_nil, fun _ hl => absurd hl List.not_mem_nil⟩

variable (hash) in
theorem begin_db (h : History) (s : Session) : (h.begin hash s).1.db = h.store.db := by
  rw [History.begin]
  rcases beginRun_cases h.store s.resume (s.campaign.buildMatrixFingerprint hash) with
    heq | ⟨row, _, _, heq⟩
  · rw [heq]
    rfl
  · rw [heq]

variable (hash) in
/-- The row of the run is in the store then, and the other rows still are. -/
theorem begin_runs (hids : (h.store.runs.map RunRow.id).Nodup) (s : Session) :
    ((h.begin hash s).1.runs.map RunRow.id).Nodup ∧
      ⟨(h.begin hash s).2, s.campaign.buildMatrixFingerprint hash⟩ ∈ (h.begin hash s).1.runs ∧
      h.store.runs ⊆ (h.begin hash s).1.runs := by
  rw [History.begin]
  rcases beginRun_cases h.store s.resume (s.campaign.buildMatrixFingerprint hash) with
    heq | ⟨row, hrow, hfp, heq⟩
  · rw [heq]
    exact ⟨(insertRun_ids hids _).1, List.mem_append_right _ (List.mem_singleton_self _),
      List.subset_append_left _ _⟩
  · rw [heq, ← hfp]
    exact ⟨hids, hrow, fun _ hmem => hmem⟩

theorem inv_operate (hinv : Inv hash sessions h) (hs : s ∈ sessions) : Inv hash sessions (h.operate hash s) := by
  obtain ⟨hids, hrow, hkept⟩ := begin_runs hash hinv.ids s
  refine ⟨hids, ?_, ?_⟩
  · intro p hp
    rcases List.mem_append.mp hp with hold | hnew
    · obtain ⟨hsession, hmem⟩ := hinv.begun p hold
      exact ⟨hsession, hkept hmem⟩
    · rw [List.mem_singleton.mp hnew]
      exact ⟨hs, hrow⟩
  · intro l hl
    have hlog : log (h.operate hash s).store.db =
        log h.store.db ++ s.entries.map (loggedEntry (h.begin hash s).2) := by
      rw [← begin_db hash h s]
      exact log_writeAll _ _ _
    rw [hlog] at hl
    rcases List.mem_append.mp hl with hold | hnew
    · obtain ⟨p, hp, hentry⟩ := hinv.logged l hold
      exact ⟨p, List.mem_append_left _ hp, hentry⟩
    · obtain ⟨entry, hentry, rfl⟩ := List.mem_map.mp hnew
      exact ⟨_, List.mem_append_right _ (List.mem_singleton_self _), entry, hentry, rfl⟩

/-- Sessions of one run have hashed one text. -/
theorem text_of_shares (hfree : CollisionFree hash sessions) (hinv : Inv hash sessions h)
    (hs : s ∈ sessions) (he : Shares hash h s e) : e.campaign.text = s.campaign.text := by
  obtain ⟨hids, hrow, hkept⟩ := begin_runs hash hinv.ids s
  obtain ⟨hsession, hmem⟩ := hinv.begun _ he
  have hrows := List.inj_on_of_nodup_map hids (hkept hmem) hrow rfl
  exact hfree e hsession s hs (congrArg RunRow.fingerprint hrows)

/-- What the run makes a session skip, has been logged by a session of the run. -/
theorem skip_logged (hinv : Inv hash sessions h) {proto : String} {limit : Int} {key : String × String}
    (hskip : h.store.db.hasTcpResult (h.begin hash s).2 key.1 key.2 proto = true ∨
      key ∈ h.store.db.getResumeSkipTcpKeys (some (h.begin hash s).2) proto limit) :
    ∃ e, Shares hash h s e ∧ ∃ entry ∈ e.entries, entry.proto = proto ∧ entryKey entry = key := by
  have hrow : ∃ l ∈ log h.store.db, l.is proto (inRun (h.begin hash s).2) key = true := by
    rcases hskip with hrow | hset
    · exact hasTcpResult_iff.mp hrow
    · rw [resumeSkip_toNat, mem_getResumeSkipTcpKeys] at hset
      obtain ⟨l, hlast, _⟩ := hset
      exact ⟨l, List.mem_filter.mp (List.mem_of_getLast? hlast)⟩
  obtain ⟨l, hl, his⟩ := hrow
  obtain ⟨⟨runId, e⟩, hp, entry, hentry, rfl⟩ := hinv.logged l hl
  have hrun : some runId = some (h.begin hash s).2 := of_decide_eq_true (Logged.is_iff.mp his).2.1
  rw [Option.some.injEq] at hrun
  rw [hrun] at his hp
  exact ⟨e, hp, entry, hentry, loggedEntry_is.mp his⟩

theorem stays_iff_breaks (hfree : CollisionFree hash sessions) (hinv : Inv hash sessions h)
    (hs : s ∈ sessions) : StaysInKind hash h s ↔ BreaksAlike hash h s := by
  have hkind : ∀ e, Shares hash h s e → (SameKind e.campaign s.campaign ↔ SameBreaks e.campaign s.campaign) :=
    fun e he => sameKind_iff (text_of_shares hfree hinv hs he)
  constructor
  · exact fun hstays e he => (hkind e he).mp (hstays.1 e he)
  · intro hbreaks
    refine ⟨fun e he => (hkind e he).mpr (hbreaks e he), fun proto limit key hskip => ?_⟩
    obtain ⟨e, he, hentry⟩ := skip_logged hinv hskip
    exact ⟨e, he, (hkind e he).mpr (hbreaks e he), hentry⟩

/-- No session of a history resumes into another kind of campaign exactly if
each breaks its text where the sessions of its run have broken theirs. -/
theorem resume_stays_iff (hash : String → String) (sessions : List Session)
    (hfree : CollisionFree hash sessions) :
    Along (step hash) (StaysInKind hash) empty sessions ↔
      Along (step hash) (BreaksAlike hash) empty sessions := by
  have hmem : Along (step hash) (fun _ s => s ∈ sessions) empty sessions :=
    along_of_forall (fun s hs => hs)
  have hstep : ∀ (C : History → Session → Prop) h s t, Inv hash sessions h → C h s ∧ s ∈ sessions →
      step hash h s = some t → Inv hash sessions t := by
    rintro C h s t hinv ⟨_, hs⟩ ht
    obtain rfl := Option.some.inj ht
    exact inv_operate hinv hs
  constructor
  · intro h
    exact (h.and hmem).mono (hstep _)
      (fun _ _ hinv hC => (stays_iff_breaks hfree hinv hC.2).mp hC.1) inv_empty
  · intro h
    exact (h.and hmem).mono (hstep _)
      (fun _ _ hinv hC => (stays_iff_breaks hfree hinv hC.2).mpr hC.1) inv_empty

/-- The first half of the digest of the one text that is hashed below. -/
def shownDigest : String → String := fun _ => "d780e22f4dcb3f8e"

def itemOf (strategy : String) : StrategyText.StrategyItem := { label := "u1", strategy }

def twoStrategies (resume : Bool) : Session where
  campaign := { tcpItems := [itemOf "fake:ttl=3", itemOf "multisplit:pos=1"], udpItems := [] }
  resume := resume
  entries := [⟨"u1", "tcp", "fake:ttl=3", { domain := "a.com", status := .throttled }⟩]

/-- One line of a user matrix, with an escaped line break in it. -/
def oneStrategy : Session where
  campaign := { tcpItems := [itemOf "fake:ttl=3\nmultisplit:pos=1"], udpItems := [] }
  resume := false
  entries := [⟨"u1", "tcp", "fake:ttl=3\nmultisplit:pos=1", { domain := "a.com", status := .throttled }⟩]

theorem sameMatrix_stays :
    Along (step shownDigest) (StaysInKind shownDigest) empty [twoStrategies false, twoStrategies true] :=
  (resume_stays_iff shownDigest [twoStrategies false, twoStrategies true] (by decide +kernel)).mpr
    (by decide +kernel)

theorem splitMatrix_crosses :
    ¬ Along (step shownDigest) (StaysInKind shownDigest) empty [oneStrategy, twoStrategies true] := by
  rintro ⟨_, h⟩
  have hshares : Shares shownDigest (empty.operate shownDigest oneStrategy) (twoStrategies true) oneStrategy :=
    List.mem_singleton_self _
  exact absurd ((h _ rfl).1.1 oneStrategy hshares).tcp.length_eq (by decide)

end Blockchecks.CampaignRuns
