import Blockchecks.FamilyFormats
import Blockchecks.TriageRecord

namespace Blockchecks.FamilyForms

open FamilyAxes FamilyCodes FamilyExpanders FamilyFormats FieldCodes

/-- An automatic companion of a core of udp_discord, whose label does not tell its
TTL. -/
def autoRow (core : String × Nat) (ttl : String) : Row :=
  ((repeatedRow "std_udp_" core).1 ++ "_autottl", (repeatedRow "std_udp_" core).2 ++ ttlClause ttl)

/-- Two automatic companions of one core. -/
def Twins (p q : Row) : Prop := ∃ core s t, p = autoRow core s ∧ q = autoRow core t

/-- The rows of one form of label. Each label begins with one of its heads, none ends
in a digest, and only twins share one. -/
structure Form where
  Has : Row → Prop
  heads : List Text
  begins : ∀ row, Has row → ∃ head ∈ heads, head <+: row.1.toList
  plain : ∀ row, Has row → ¬ Hashed row.1
  same : ∀ p q, Has p → Has q → p.1 = q.1 → p.2 = q.2 ∨ Twins p q

/-- The first text of the columns with each of its values. -/
def headsOf : List (Column Char) → List Text
  | [] => []
  | f :: _ => f.values.map (f.text ++ ·)

theorem begins_render {columns : List (Column Char)} {vs : List Text} (hne : columns ≠ []) (h : Fits columns vs)
    (rest : Text) : ∃ head ∈ headsOf columns, head <+: render columns vs ++ rest := by
  cases h with
  | nil => exact absurd rfl hne
  | @cons f v columns vs hv hvs =>
      refine ⟨f.text ++ v, List.mem_map_of_mem hv, ?_⟩
      rw [render, ← List.append_assoc, List.append_assoc]
      exact List.prefix_append _ _

section coding

variable {β : Type} (c : Coding β)

theorem begins_head (row : Row) (h : c.Has row) : ∃ head ∈ [c.head], head <+: row.1.toList :=
  ⟨c.head, List.mem_singleton.mpr rfl, c.head_begins h⟩

theorem begins_value (hne : c.columns ≠ []) (row : Row) (h : c.Has row) :
    ∃ head ∈ headsOf c.columns, head <+: row.1.toList := by
  obtain ⟨a, t, ha, -, rfl⟩ := h
  rw [c.toList_label ha]
  exact begins_render hne (c.fits a ha) _

variable (hne : c.columns ≠ []) (htail : ∀ t, c.tail t → t.Companion)

/-- The form of a coding whose companions have names of their own. -/
def codedForm (heads : List Text) (hbegins : ∀ row, c.Has row → ∃ head ∈ heads, head <+: row.1.toList) :
    Form where
  Has := c.Has
  heads := heads
  begins := hbegins
  plain _ h := c.not_hashed hne (fun t ht => .inl (htail t ht)) h
  same _ _ hp hq h := .inl (c.same (fun _ _ ht ht' he => Tail.eq_of_label (htail _ ht) (htail _ ht') he) hp hq h)

def headForm : Form := codedForm c hne htail [c.head] (begins_head c)

/-- For a coding whose head another form's head begins with. -/
def valueForm : Form := codedForm c hne htail (headsOf c.columns) (begins_value c hne)

end coding

theorem companion_core {t : Tail} (h : t.IsCore) : t.Companion := by
  rw [show t = Tail.core from h]
  trivial

def discordCoding : Coding (String × Nat) :=
  repeatedCoding "std_udp_" (axesFor .udpDiscord).blobs Tail.VoiceCompanion (by decide) (by decide)

theorem discord_same {p q : Row} (hp : discordCoding.Has p) (hq : discordCoding.Has q) (h : p.1 = q.1) :
    p.2 = q.2 ∨ Twins p q := by
  obtain ⟨a, t, ha, ht, rfl⟩ := hp
  obtain ⟨b, t', hb, ht', rfl⟩ := hq
  obtain ⟨hcore, hlabel⟩ := Coding.core_of_label ha hb ht ht' h
  rcases Tail.voice_of_label ht ht' hlabel with rfl | ⟨x, y, rfl, rfl⟩
  · exact .inl (congrArg (· ++ t.strategy) hcore)
  · have hrow : discordCoding.core a = discordCoding.core b := Prod.ext (String.append_left_inj _ |>.mp h) hcore
    refine .inr ⟨a, x, y, rfl, ?_⟩
    change _ = ((discordCoding.core a).1 ++ "_autottl", (discordCoding.core a).2 ++ ttlClause y)
    rw [hrow]
    rfl

def discordForm : Form where
  Has := discordCoding.Has
  heads := headsOf discordCoding.columns
  begins := begins_value discordCoding (by decide)
  plain _ h := discordCoding.not_hashed (by decide) (fun _ ht => .inr ht) h
  same _ _ := discord_same

/-- A host may be any text, and the fooling is told by the end of the label. -/
def HasHost (row : Row) : Prop := ∃ host, ∃ fool ∈ allFools, row = hostfakeHostRow (host, fool)

theorem host_label (host fool : String) : (hostfakeHostRow (host, fool)).1.toList =
    "std_hf_host_".toList ++ (host.toList ++ '_' :: (foolName fool).toList) := by
  delta hostfakeHostRow
  simp only [String.toList_append, List.append_assoc]
  rfl

theorem fools_end : ∀ f ∈ foolCol.values, ∀ g ∈ foolCol.values, ¬ '_' :: g <:+ f := by decide

theorem host_cancel {host host' fool fool' : Text} (hf : fool ∈ foolCol.values) (hf' : fool' ∈ foolCol.values)
    (h : host ++ '_' :: fool = host' ++ '_' :: fool') : host = host' ∧ fool = fool' := by
  rcases List.append_eq_append_iff.mp h with ⟨d, rfl, hd⟩ | ⟨d, rfl, hd⟩
  · cases d with
    | nil => exact ⟨(List.append_nil host).symm, (List.cons.inj hd).2⟩
    | cons c d => exact absurd ⟨d, (List.cons.inj hd).2.symm⟩ (fools_end fool hf fool' hf')
  · cases d with
    | nil => exact ⟨List.append_nil host', (List.cons.inj hd).2.symm⟩
    | cons c d => exact absurd ⟨d, (List.cons.inj hd).2.symm⟩ (fools_end fool' hf' fool hf)

def hostForm : Form where
  Has := HasHost
  heads := ["std_hf_host_".toList]
  begins row h := by
    obtain ⟨host, fool, -, rfl⟩ := h
    rw [host_label]
    exact ⟨_, List.mem_singleton.mpr rfl, List.prefix_append _ _⟩
  plain row h := by
    obtain ⟨host, fool, hfool, rfl⟩ := h
    have hending : '_' :: (foolName fool).toList ∈ endings [foolCol] :=
      List.mem_map_of_mem (mem_foolCol hfool)
    obtain ⟨hmark, hdigest⟩ := foolCol_ending _ hending
    rw [Hashed, host_label, ← List.append_assoc, lastPart_append _ hmark, hdigest]
    exact Bool.false_ne_true
  same p q hp hq h := by
    obtain ⟨host, fool, hfool, rfl⟩ := hp
    obtain ⟨host', fool', hfool', rfl⟩ := hq
    have h := congrArg String.toList h
    rw [host_label, host_label] at h
    obtain ⟨hhost, hname⟩ := host_cancel (mem_foolCol hfool) (mem_foolCol hfool') (List.append_cancel_left h)
    rw [String.toList_injective hhost, foolName_injective hfool hfool' hname]
    exact .inl rfl

/-- The forms of label of the families. -/
inductive Kind where
  | fake | rstMod | synack | genevaFool | wssize | hostfake | host | multisplit | pad | multidisorder | syndata
  | tcpseg | oob | multiFake | tripleFake | fakeMultisplit | fakeMultidisorder | fakeMultisplitHostfake
  | fakeHostfake | fakedsplit | fakeddisorder | fakeFakedsplit | tcpIpfrag | tcpFakeIpfrag | httpSimple | httpFake
  | httpTlsDual | discord | multiblob | quicFake | quicIp6 | quicGv | quicIpfrag | quicFakeIpfrag | udpQuic | game
  deriving DecidableEq

def kinds : List Kind :=
  [.fake, .rstMod, .synack, .genevaFool, .wssize, .hostfake, .host, .multisplit, .pad, .multidisorder, .syndata,
    .tcpseg, .oob, .multiFake, .tripleFake, .fakeMultisplit, .fakeMultidisorder, .fakeMultisplitHostfake,
    .fakeHostfake, .fakedsplit, .fakeddisorder, .fakeFakedsplit, .tcpIpfrag, .tcpFakeIpfrag, .httpSimple, .httpFake,
    .httpTlsDual, .discord, .multiblob, .quicFake, .quicIp6, .quicGv, .quicIpfrag, .quicFakeIpfrag, .udpQuic, .game]

theorem mem_kinds (k : Kind) : k ∈ kinds := by
  cases k <;> decide

def httpFakeCoding : Coding (String × Nat × String) :=
  fooledCoding "std_http_fake_" (axesFor .httpFake).blobs (by decide) (by decide)

def httpTlsDualCoding : Coding (String × Nat × String) :=
  fooledCoding "std_http_tls_dual_" (axesFor .httpTlsDual).httpBlobs (by decide) (by decide)

def quicFakeCoding : Coding (String × Nat × String) :=
  fooledCoding "std_quic_fake_" (axesFor .quicFake).blobs (by decide) (by decide)

def quicGvCoding : Coding (String × Nat) :=
  repeatedCoding "std_quic_gv_" (axesFor .quicGv).blobs Tail.IsCore (by decide) (by decide)

def udpQuicCoding : Coding (String × Nat) :=
  repeatedCoding "std_udp_quic_" (axesFor .udpQuic).blobs Tail.IsCore (by decide) (by decide)

/-- The rows of fake depend on the foolings that a scan adds for IPv6, and on its
first own one. -/
def form (extra : List String) (fool : String) : Kind → Form
  | .fake => headForm (fakeCoding extra fool) (List.cons_ne_nil _ _) (fun _ => id)
  | .rstMod => headForm rstModCoding (List.cons_ne_nil _ _) (fun _ => companion_core)
  | .synack => headForm synackCoding (List.cons_ne_nil _ _) (fun _ => companion_core)
  | .genevaFool => headForm genevaFoolCoding (List.cons_ne_nil _ _) (fun _ => companion_core)
  | .wssize => headForm wssizeCoding (List.cons_ne_nil _ _) (fun _ => companion_core)
  | .hostfake => valueForm hostfakeCoding (List.cons_ne_nil _ _) (fun _ => id)
  | .host => hostForm
  | .multisplit => headForm multisplitCoding (List.cons_ne_nil _ _) (fun _ => id)
  | .pad => headForm padCoding (List.cons_ne_nil _ _) (fun _ => companion_core)
  | .multidisorder => headForm multidisorderCoding (List.cons_ne_nil _ _) (fun _ => companion_core)
  | .syndata => headForm syndataCoding (List.cons_ne_nil _ _) (fun _ => companion_core)
  | .tcpseg => headForm tcpsegCoding (List.cons_ne_nil _ _) (fun _ => companion_core)
  | .oob => headForm oobCoding (List.cons_ne_nil _ _) (fun _ => companion_core)
  | .multiFake => headForm multiFakeCoding (List.cons_ne_nil _ _) (fun _ => companion_core)
  | .tripleFake => headForm tripleFakeCoding (List.cons_ne_nil _ _) (fun _ => companion_core)
  | .fakeMultisplit => headForm fakeMultisplitCoding (List.cons_ne_nil _ _) (fun _ => companion_core)
  | .fakeMultidisorder => headForm fakeMultidisorderCoding (List.cons_ne_nil _ _) (fun _ => companion_core)
  | .fakeMultisplitHostfake => headForm fakeMultisplitHostfakeCoding (List.cons_ne_nil _ _) (fun _ => companion_core)
  | .fakeHostfake => headForm fakeHostfakeCoding (List.cons_ne_nil _ _) (fun _ => companion_core)
  | .fakedsplit => headForm (fakedCoding "fakedsplit" "std_fds") (List.cons_ne_nil _ _) (fun _ => id)
  | .fakeddisorder => headForm (fakedCoding "fakeddisorder" "std_fdd") (List.cons_ne_nil _ _) (fun _ => id)
  | .fakeFakedsplit => headForm fakeFakedsplitCoding (List.cons_ne_nil _ _) (fun _ => companion_core)
  | .tcpIpfrag => headForm tcpIpfragCoding (List.cons_ne_nil _ _) (fun _ => companion_core)
  | .tcpFakeIpfrag => headForm tcpFakeIpfragCoding (List.cons_ne_nil _ _) (fun _ => companion_core)
  | .httpSimple => valueForm httpSimpleCoding (List.cons_ne_nil _ _) (fun _ => companion_core)
  | .httpFake => headForm httpFakeCoding (List.cons_ne_nil _ _) (fun _ => companion_core)
  | .httpTlsDual => headForm httpTlsDualCoding (List.cons_ne_nil _ _) (fun _ => companion_core)
  | .discord => discordForm
  | .multiblob => headForm udpMultiblobCoding (List.cons_ne_nil _ _) (fun _ => companion_core)
  | .quicFake => valueForm quicFakeCoding (List.cons_ne_nil _ _) (fun _ => companion_core)
  | .quicIp6 => headForm quicIp6Coding (List.cons_ne_nil _ _) (fun _ => companion_core)
  | .quicGv => headForm quicGvCoding (List.cons_ne_nil _ _) (fun _ => companion_core)
  | .quicIpfrag => headForm quicIpfragCoding (List.cons_ne_nil _ _) (fun _ => companion_core)
  | .quicFakeIpfrag => headForm quicFakeIpfragCoding (List.cons_ne_nil _ _) (fun _ => companion_core)
  | .udpQuic => headForm udpQuicCoding (List.cons_ne_nil _ _) (fun _ => companion_core)
  | .game => headForm udpGameCoding (List.cons_ne_nil _ _) (fun _ => companion_core)

theorem heads_eq (extra : List String) (fool : String) (k : Kind) : (form extra fool k).heads = (form [] "" k).heads := by
  cases k <;> rfl

/-- No head of one form begins with a head of another. -/
theorem heads_apart : ∀ k ∈ kinds, ∀ k' ∈ kinds, k ≠ k' →
    ∀ head ∈ (form [] "" k).heads, ∀ head' ∈ (form [] "" k').heads, ¬ head <+: head' := by
  decide +kernel

theorem kind_of_label {extra : List String} {fool : String} {k k' : Kind} {p q : Row}
    (hp : (form extra fool k).Has p) (hq : (form extra fool k').Has q) (h : p.1 = q.1) : k = k' := by
  obtain ⟨head, hhead, hle⟩ := (form extra fool k).begins p hp
  obtain ⟨head', hhead', hle'⟩ := (form extra fool k').begins q hq
  rw [heads_eq] at hhead hhead'
  rw [← h] at hle'
  by_contra hne
  rcases List.prefix_or_prefix_of_prefix hle hle' with hpre | hpre
  · exact heads_apart k (mem_kinds k) k' (mem_kinds k') hne head hhead head' hhead' hpre
  · exact heads_apart k' (mem_kinds k') k (mem_kinds k) (Ne.symm hne) head' hhead' head hhead hpre

/-- The label of a row is of a form, or ends in the digest of its strategy. -/
def Told (digest : String → String) (extra : List String) (fool : String) (row : Row) : Prop :=
  (∃ k, (form extra fool k).Has row) ∨ ∃ pre, row.1 = cmdLabel digest pre row.2

section digest

variable {digest : String → String} (hhex : ∀ cmd, isDigest (digest cmd).toList = true)

include hhex

theorem underscore_notMem_digest (cmd : String) : '_' ∉ (digest cmd).toList := by
  intro hmem
  have hfalse := Tail.isDigest_eq_false hmem (by decide)
  rw [hhex cmd] at hfalse
  cases hfalse

theorem lastPart_cmdLabel (pre cmd : String) : lastPart '_' (cmdLabel digest pre cmd).toList = (digest cmd).toList := by
  have hlabel : (cmdLabel digest pre cmd).toList = pre.toList ++ '_' :: (digest cmd).toList := by
    delta cmdLabel
    simp only [String.toList_append, List.append_assoc]
    rfl
  rw [hlabel, lastPart_append _ List.mem_cons_self, lastPart_cons (underscore_notMem_digest hhex cmd)]

theorem twins_of_label {extra : List String} {fool : String} {p q : Row} (hp : Told digest extra fool p)
    (hq : Told digest extra fool q) (hfree : digest p.2 = digest q.2 → p.2 = q.2) (h : p.1 = q.1) :
    p.2 = q.2 ∨ Twins p q := by
  have hdigest (pre cmd : String) : Hashed (cmdLabel digest pre cmd) := by
    rw [Hashed, lastPart_cmdLabel hhex]
    exact hhex cmd
  rcases hp with ⟨k, hp⟩ | ⟨pre, hp⟩ <;> rcases hq with ⟨k', hq⟩ | ⟨pre', hq⟩
  · obtain rfl := kind_of_label hp hq h
    exact (form extra fool k).same p q hp hq h
  · exact absurd (h.trans hq ▸ hdigest pre' q.2) ((form extra fool k).plain p hp)
  · exact absurd (h.symm.trans hp ▸ hdigest pre p.2) ((form extra fool k').plain q hq)
  · have hlast := congrArg (fun label => lastPart '_' label.toList) (hp.symm.trans (h.trans hq))
    simp only [lastPart_cmdLabel hhex] at hlast
    exact .inl (hfree (String.toList_injective hlast))

end digest

end Blockchecks.FamilyForms
