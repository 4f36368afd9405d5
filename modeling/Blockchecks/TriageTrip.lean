import Blockchecks.TriageRecord
import Mathlib.Tactic.Linarith

namespace Blockchecks.TriageTrip

open FailPhases TriageProfiles TriageRecord

variable {members : List FailPhase} {p : Profile} {phase : FailPhase}

theorem mapM_map {α β : Type} {f : α → β} {g : β → Option α} (h : ∀ a, g (f a) = some a) (items : List α) :
    (items.map f).mapM g = some items := by
  induction items with
  | nil => rfl
  | cons a items ih => rw [List.map_cons, List.mapM_cons, h, ih]; rfl

theorem asStrings_strings (items : List String) : (Value.strings items).asStrings = some items := by
  cases items with
  | nil => rfl
  | cons s items => exact mapM_map (f := Value.str) (fun _ => rfl) (s :: items)

theorem asDict_dict (entries : Fields) : (Value.dict entries).asDict = some entries := by
  cases entries with
  | nil => rfl
  | cons => rfl

theorem asStrOr_str (s : String) : (Value.str s).asStrOr = some s := by
  rw [Value.asStrOr, Value.truthy]
  by_cases h : s = ""
  · rw [h]
    rfl
  · rw [if_pos (bne_iff_ne.mpr h)]
    rfl

theorem asOptInt_ofOption (x : Option Int) : (Value.ofOption .int x).asOptInt = some x := by
  cases x <;> rfl

theorem asOptBool_ofOption (x : Option Bool) : (Value.ofOption .bool x).asOptBool = some x := by
  cases x <;> rfl

/-- What a process makes of the dict of a profile. -/
def decoded (members : List FailPhase) (p : Profile) : Profile := { p with
  l3Phase := failPhase members (.str p.l3Phase.value)
  handshakePhase := failPhase members (.str p.handshakePhase.value)
  stallPhase := failPhase members (.str p.stallPhase.value)
  readRateBps := roundTenth p.readRateBps }

theorem fromDict_toDict (members : List FailPhase) (p : Profile) :
    fromDict members p.toDict = some (decoded members p) := by
  have hne : p.toDict ≠ [] := List.cons_ne_nil _ _
  have hlen : (Value.get p.toDict "client_hello_len").asInt = some p.clientHelloLen := rfl
  have hstall : (Value.get p.toDict "stall_at_bytes").asOptInt = some p.stallAtBytes := asOptInt_ofOption _
  have hrate : (Value.get p.toDict "read_rate_bps").asNumber = some (roundTenth p.readRateBps) := rfl
  have hpass : (Value.get p.toDict "fingerprint_pass").asDict =
      some (p.fingerprintPass.map (fun e => (e.1, .bool e.2))) := asDict_dict _
  have hphases : (Value.get p.toDict "domain_phases").asDict =
      some (p.domainPhases.map (fun e => (e.1, .str e.2))) := asDict_dict _
  have hreports : (Value.get p.toDict "domain_reports").asDict =
      some (p.domainReports.map (fun e => (e.1, .dict e.2))) := asDict_dict _
  have hfoolings : (Value.get p.toDict "viable_foolings").asStrings = some p.viableFoolings := asStrings_strings _
  have hblobs : (Value.get p.toDict "viable_blobs").asStrings = some p.viableBlobs := asStrings_strings _
  have hmode : (Value.get p.toDict "split_mode").asStrOr = some p.splitMode := asStrOr_str _
  have hserver : (Value.get p.toDict "server_hops").asOptInt = some p.serverHops := asOptInt_ofOption _
  have hdpi : (Value.get p.toDict "dpi_hops").asOptInt = some p.dpiHops := asOptInt_ofOption _
  have hdelta : (Value.get p.toDict "autottl_delta").asOptInt = some p.autottlDelta := asOptInt_ofOption _
  have hech : (Value.get p.toDict "ech_blocked").asOptBool = some p.echBlocked := asOptBool_ofOption _
  have hhttp : (Value.get p.toDict "http_blocked").asOptBool = some p.httpBlocked := asOptBool_ofOption _
  have hdead : (Value.get p.toDict "dead_foolings").asStrings = some p.deadFoolings := asStrings_strings _
  have hhosts : (Value.get p.toDict "viable_hosts").asStrings = some p.viableHosts := asStrings_strings _
  have hdiag : (Value.get p.toDict "dpi_diag").asDict = some p.dpiDiag := asDict_dict _
  rw [fromDict, if_neg hne, hlen, hstall, hrate, hpass, hphases, hreports, hfoolings, hblobs, hmode, hserver, hdpi,
    hdelta, hech, hhttp, hdead, hhosts, hdiag]
  simp only [Option.bind_eq_bind, Option.bind_some]
  rw [mapM_map (g := Value.asBoolEntry) fun _ => rfl, mapM_map (g := Value.asStrEntry) fun _ => rfl,
    mapM_map (g := Value.asDictEntry) fun _ => rfl]
  rfl

theorem roundHalfEven_int (n : Int) : roundHalfEven n = n := by
  have hdiff : (n : ℚ) - ⌊(n : ℚ)⌋ < 1 / 2 := by
    rw [Int.floor_intCast, sub_self]
    norm_num
  rw [roundHalfEven, if_pos hdiff, Int.floor_intCast]

theorem roundTenth_again (x : ℚ) : roundTenth (roundTenth x) = roundTenth x := by
  have hwhole : roundTenth x * 10 = (roundHalfEven (x * 10) : ℚ) := by
    rw [roundTenth]
    ring
  rw [roundTenth, hwhole, roundHalfEven_int, roundTenth]

theorem value_injective : ∀ a ∈ classMembers, ∀ b ∈ classMembers, a.value = b.value → a = b := by decide +kernel

theorem mem_classMembers (phase : FailPhase) : phase ∈ classMembers ∨ ∃ code, phase = .httpCode code := by
  cases phase
  case httpCode code => exact .inr ⟨code, rfl⟩
  all_goals exact .inl (by decide)

/-- A member of the class is found again in any process. -/
theorem failPhase_member (h : phase ∈ classMembers) : failPhase classMembers (.str phase.value) = phase := by
  rw [failPhase]
  cases hfind : classMembers.find? (fun member => decide (member.value = phase.value)) with
  | none => exact absurd (decide_eq_true rfl) (List.find?_eq_none.mp hfind phase h)
  | some member =>
      have hsame : member.value = phase.value :=
        of_decide_eq_true (List.find?_some (p := fun member : FailPhase => decide (member.value = phase.value)) hfind)
      exact value_injective member (List.mem_of_find?_eq_some hfind) phase h hsame

theorem failPhase_mem (value : Value) : failPhase classMembers value ∈ classMembers := by
  cases value
  case str s =>
    rw [failPhase]
    cases hfind : classMembers.find? (fun member => decide (member.value = s)) with
    | none => decide
    | some member => exact List.mem_of_find?_eq_some hfind
  all_goals exact (by decide : FailPhase.unknown ∈ classMembers)

/-- No member of the class is named like that of a code. -/
theorem value_httpCode (h : phase ∈ classMembers) (code : Nat) : phase.value ≠ (FailPhase.httpCode code).value := by
  intro heq
  have hclass : classMembers.all (fun member => !(member.value.toList.take 5 == "http_".toList &&
      (member.value.toList.drop 5).head?.any Char.isDigit)) = true := by decide +kernel
  have htext : (FailPhase.httpCode code).value.toList = "http_".toList ++ Nat.toDigits 10 code := by
    rw [FailPhase.value, String.toList_append, Nat.toString_eq_repr, Nat.toList_repr]
  have hlist : phase.value.toList = "http_".toList ++ Nat.toDigits 10 code := (congrArg String.toList heq).trans htext
  have hdrop : phase.value.toList.drop 5 = Nat.toDigits 10 code := by
    rw [hlist]
    rfl
  obtain ⟨c, rest, hcons⟩ := List.exists_cons_of_ne_nil (Nat.toDigits_ne_nil (b := 10) (n := code))
  have hdigit : c.isDigit = true :=
    Nat.isDigit_of_mem_toDigits (b := 10) (n := code) (by decide) (by decide) (hcons ▸ List.mem_cons_self)
  have htake : phase.value.toList.take 5 = "http_".toList := by
    rw [hlist]
    rfl
  have hmember := List.all_eq_true.mp hclass phase h
  rw [htake, hdrop, hcons, beq_self_eq_true, List.head?_cons, Option.any_some, hdigit] at hmember
  exact Bool.noConfusion hmember

/-- The text of a phase comes back exactly from the members of the class. -/
theorem failPhase_value_iff (phase : FailPhase) : (failPhase classMembers (.str phase.value)).value = phase.value ↔
    ∀ code, phase ≠ .httpCode code := by
  rcases mem_classMembers phase with hmem | ⟨code, rfl⟩
  · refine iff_of_true (by rw [failPhase_member hmem]) fun code hcode => ?_
    exact value_httpCode hmem code (congrArg FailPhase.value hcode)
  · exact iff_of_false (value_httpCode (failPhase_mem _) code) fun h => h code rfl

/-- A profile comes through its dict into a fresh process if no phase of it is that of an
HTTP code. -/
theorem triage_trip_iff (p : Profile) :
    (∃ q, fromDict classMembers p.toDict = some q ∧ q.toDict = p.toDict) ↔
      ∀ phase ∈ [p.l3Phase, p.handshakePhase, p.stallPhase], ∀ code, phase ≠ .httpCode code := by
  rw [fromDict_toDict]
  simp only [Option.some.injEq, exists_eq_left', List.forall_mem_cons, List.not_mem_nil, false_imp_iff, implies_true,
    and_true]
  constructor
  · intro h
    have hvalues (key : String) := congrArg (Value.get · key) h
    exact ⟨(failPhase_value_iff p.l3Phase).mp (Value.str.inj (hvalues "l3_phase")),
      (failPhase_value_iff p.handshakePhase).mp (Value.str.inj (hvalues "handshake_phase")),
      (failPhase_value_iff p.stallPhase).mp (Value.str.inj (hvalues "stall_phase"))⟩
  · rintro ⟨hl3, hhandshake, hstall⟩
    have hmember {phase : FailPhase} (h : ∀ code, phase ≠ .httpCode code) :
        failPhase classMembers (.str phase.value) = phase :=
      failPhase_member ((mem_classMembers phase).resolve_right fun hcode => h hcode.choose hcode.choose_spec)
    rw [decoded, hmember hl3, hmember hhandshake, hmember hstall, Profile.toDict, roundTenth_again]
    rfl

/-- The phase of a status code is not there yet in the process that reads it. -/
theorem status_phase_lost : ¬ ∃ q, fromDict classMembers ({ l3Phase := .httpCode 403 } : Profile).toDict = some q ∧
    q.toDict = ({ l3Phase := .httpCode 403 } : Profile).toDict := by
  rintro ⟨q, hq, hdict⟩
  rw [fromDict_toDict] at hq
  obtain rfl := Option.some.inj hq
  have hvalue := Value.str.inj (congrArg (Value.get · "l3_phase") hdict)
  exact absurd hvalue (by decide +kernel)

end Blockchecks.TriageTrip
