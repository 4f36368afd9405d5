import Blockchecks.RunControl

namespace Blockchecks.RunControlAlone

open Json RunControl

variable {conv : Conversions} {processes : Processes} {self : Int}

/-- The lock holds the record of another campaign process that is alive. -/
def NamesLiveCampaign (conv : Conversions) (processes : Processes) (self : Int)
    (lock : Option ByteArray) : Prop :=
  ∃ content ∈ lock, ∃ info, parseLock conv content = .ok info ∧ info.pid ≠ self ∧
    isPidAlive processes info.pid = .ok true ∧ cmdlineLooksLikeCampaign processes info.pid = true

/-- There is no lock, or it is a record with a pid that can be asked for. -/
def Recoverable (conv : Conversions) (self : Int) (lock : Option ByteArray) : Prop :=
  ∀ content ∈ lock, ∃ info, parseLock conv content = .ok info ∧
    (info.pid = self ∨ info.pid < pidLimit)

theorem readText_toUTF8 (text : String) : readText text.toUTF8 = .ok text := by
  have h : String.fromUTF8? text.toUTF8 = some text := dif_pos text.isValidUTF8
  rw [readText, h]

theorem fromDict_payload (registration : Registration) :
    ∃ info, conv.fromDict (registration.payload self) = .ok info ∧ info.pid = self := by
  rw [Registration.payload]
  cases registration.argv with
  | nil => exact ⟨_, rfl, rfl⟩
  | cons arg args => exact ⟨_, rfl, rfl⟩

/-- What a registration writes is read back as its own record. -/
theorem parseLock_lockText (registration : Registration) :
    ∃ info, parseLock conv (registration.lockText self) = .ok info ∧ info.pid = self := by
  obtain ⟨info, hinfo, hpid⟩ := @fromDict_payload conv self registration
  refine ⟨info, ?_, hpid⟩
  have hloads := @loads_dumps_append (some 2) (registration.payload self) ['\n']
    (ends_cons (by decide)) rfl
  rw [parseLock, Registration.lockText, readText_toUTF8]
  change (jsonLoads _).bind _ = _
  rw [jsonLoads, String.toList_ofList, hloads]
  exact hinfo

theorem readActiveRun_lockText (registration : Registration) :
    ∃ info, (readActiveRun conv processes self (some (registration.lockText self))).1 =
      .ok (some info) ∧ info.pid = self := by
  obtain ⟨info, hinfo, hpid⟩ := @parseLock_lockText conv self registration
  refine ⟨info, ?_, hpid⟩
  rw [readActiveRun, hinfo]
  dsimp only
  rw [if_pos hpid]

theorem isPidAlive_of_small {pid : Int} (h : pid < pidLimit) :
    ∃ alive, isPidAlive processes pid = .ok alive := by
  rw [isPidAlive, if_neg (not_le.mpr h)]
  split
  · exact ⟨_, rfl⟩
  · exact ⟨_, rfl⟩

theorem isPidAlive_of_large {pid : Int} (h : pidLimit ≤ pid) :
    isPidAlive processes pid = .error .overflow := by
  have hpos : ¬ pid ≤ 0 := by
    rw [pidLimit] at h
    omega
  rw [isPidAlive, if_neg hpos, if_pos h]

variable {registration : Registration} {lock : Option ByteArray}

theorem writeLast_none : writeLast self registration none =
    (.returned, some (registration.lockText self)) := rfl

theorem writeLast_some (content : ByteArray) : writeLast self registration (some content) =
    (.exits concurrentMessage, some content) := rfl

/-- A stale record is removed, or it is the caller's own. -/
theorem register_of_recoverable (hdead : ¬ NamesLiveCampaign conv processes self lock)
    (h : Recoverable conv self lock) :
    registerActiveRun conv processes self registration lock =
      (.returned, some (registration.lockText self)) := by
  cases lock with
  | none => rfl
  | some content =>
      obtain ⟨info, hinfo, hpid⟩ := h content rfl
      rw [registerActiveRun, writeRunLockExclusive]
      dsimp only
      by_cases hown : info.pid = self
      · rw [readActiveRun, hinfo]
        dsimp only
        rw [if_pos hown]
        dsimp only
        rw [if_pos hown, writeLast_none]
      · obtain ⟨alive, halive⟩ := @isPidAlive_of_small processes _ (hpid.resolve_left hown)
        have hstale : (!alive || !cmdlineLooksLikeCampaign processes info.pid) = true := by
          by_contra hno
          simp only [Bool.or_eq_true, Bool.not_eq_true', not_or, Bool.not_eq_false] at hno
          exact hdead ⟨content, rfl, info, hinfo, hown, by rw [halive, hno.1], hno.2⟩
        rw [readActiveRun, hinfo]
        dsimp only
        rw [if_neg hown, halive]
        dsimp only
        rw [if_pos hstale]
        exact writeLast_none

/-- What cannot be read as a record stays, and is taken for a concurrent run. -/
theorem register_of_not_recoverable (h : ¬ Recoverable conv self lock) :
    (registerActiveRun conv processes self registration lock).1 ≠ .returned := by
  simp only [Recoverable, not_forall, not_exists, not_and, not_or, not_lt] at h
  obtain ⟨content, hlock, hinfo⟩ := h
  obtain rfl : lock = some content := hlock
  rw [registerActiveRun, writeRunLockExclusive]
  dsimp only
  rw [readActiveRun]
  cases hparse : parseLock conv content with
  | error error =>
      cases error with
      | invalid => simp [writeLast_some]
      | overflow => simp
  | ok info =>
      obtain ⟨hown, hlarge⟩ := hinfo info hparse
      dsimp only
      rw [if_neg hown, isPidAlive_of_large hlarge]
      simp

def plainConversions : Conversions := ⟨fun _ => some 0, fun _ => false, fun _ => none, fun _ => ""⟩

def onlyProcess (pid : Int) : Processes := fun p =>
  if p = pid then some (some "/usr/bin/python3 /usr/local/bin/bs full") else none

def fullRun : Registration := ⟨"full", "2026-01-01T00:00:00+00:00", none, "/root", ["full"]⟩

end Blockchecks.RunControlAlone
