import Blockchecks.DomainLoader
import Blockchecks.TextLines
import Mathlib.Data.List.TakeWhile

namespace Blockchecks.DomainDeny

open StrategyText LuaConf DomainLoader TextLines

/-- The arguments that load_run_domains reads; a source that is not given is empty. -/
structure DomainArgs where
  domainsFile : String := ""
  preset : String := ""
  domain : String := ""
  allowUnsafe : Bool := false

/-- The files of a run, the path of a preset unless its name is refused, and
the denylist files. -/
structure DomainFiles where
  text : String → Option (List Char)
  resolveDomainPreset : String → Option String
  defaultDomainsFile : String
  bundledDenylist : List Char
  userDenylist : List Char

section files

variable (files : DomainFiles)

def denylist : List DenylistEntry := loadDenylist files.bundledDenylist files.userDenylist

/-- The file that the domains come from: no explicit domain has taken its place. -/
def sourceFile (args : DomainArgs) : Option String :=
  if args.domainsFile ≠ "" then some args.domainsFile
  else if args.preset ≠ "" then files.resolveDomainPreset args.preset
  else if strip args.domain.toList ≠ [] then none
  else some files.defaultDomainsFile

def finishLoaded (domains : List String) : List String × Nat :=
  if domains = [] then ([], 1) else (domains, 0)

/-- The domains of a run and its exit code. A file that does not exist is an error. -/
def loadRunDomainsArgs (args : DomainArgs) : List String × Nat :=
  match sourceFile files args with
  | some path => match files.text path with
    | some text => finishLoaded (loadRunDomains text (denylist files) args.allowUnsafe)
    | none => ([], 1)
  | none =>
      if args.domainsFile = "" ∧ args.preset = "" then finishLoaded (filterProbeDomains [String.ofList (strip args.domain.toList)])
      else ([], 1)

/-- Some file, preset or the default list is what the run takes its domains from. -/
def TakesFile (args : DomainArgs) : Prop :=
  args.domainsFile ≠ "" ∨ args.preset ≠ "" ∨ strip args.domain.toList = []

end files

/-- How many dots stand behind the name in a line, in front of its slashes. -/
def endDots (line : String) : Nat :=
  (((rstripChar '/' (strip line.toList)).map lowerChar).reverse.takeWhile (· == '.')).length

variable {raw name : String} {text : List Char} {c : Char}

theorem rstripChar_append (c : Char) (text : List Char) :
    rstripChar c text ++ List.replicate (text.reverse.takeWhile (· == c)).length c = text := by
  have htake : text.reverse.takeWhile (· == c) = List.replicate (text.reverse.takeWhile (· == c)).length c := by
    refine List.eq_replicate_of_mem (fun d hd => ?_)
    have heq : (d == c) = true := List.mem_takeWhile_imp (p := (· == c)) hd
    exact beq_iff_eq.mp heq
  have hsplit := List.takeWhile_append_dropWhile (p := (· == c)) (l := text.reverse)
  have hrev := congrArg List.reverse hsplit
  rw [List.reverse_append, List.reverse_reverse, htake, List.reverse_replicate] at hrev
  exact hrev

theorem rstripChar_eq_self (h : text.getLast? ≠ some c) : rstripChar c text = text := by
  cases hrev : text.reverse with
  | nil => rw [rstripChar, hrev, List.reverse_eq_nil_iff.mp hrev]; rfl
  | cons d rest =>
      have hne : ¬ (d == c) = true := by
        intro heq
        apply h
        rw [← List.head?_reverse, hrev, List.head?_cons, beq_iff_eq.mp heq]
      have hdrop : (d :: rest).dropWhile (· == c) = d :: rest := List.dropWhile_cons_of_neg hne
      rw [rstripChar, hrev, hdrop, ← hrev, List.reverse_reverse]

theorem isFqdn_no_slash (h : isFqdn text = true) : '/' ∉ text := by
  intro hmem
  rw [isFqdn, Bool.and_eq_true, List.all_eq_true, split_char (c := '.') rfl, List.splitOn] at h
  obtain ⟨label, hlabel, hin⟩ := mem_splitOnP (p := (· == '.')) (by decide) hmem
  have hchars := h.2 label hlabel
  rw [isLabel, Bool.and_eq_true, List.all_eq_true] at hchars
  exact absurd (hchars.2 '/' hin) (by decide)

/-- A canonical name stands in its line with dots and slashes behind it only. -/
theorem canonicalize_spec (h : canonicalizeProbeDomain raw = some name) :
    ∃ slashes, (strip raw.toList).map lowerChar =
        name.toList ++ List.replicate (endDots raw) '.' ++ List.replicate slashes '/' ∧
      '/' ∉ name.toList := by
  have hstrip : ∀ s : List Char, (if s.getLast? = some '/' then rstripChar '/' s else s) = rstripChar '/' s := by
    intro s
    split
    next => rfl
    next hlast => exact (rstripChar_eq_self hlast).symm
  rw [canonicalizeProbeDomain] at h
  simp only [hstrip] at h
  split at h
  · cases h
  · split at h
    · cases h
    · split at h
      · cases h
      · split at h
        next hfqdn =>
          obtain rfl := Option.some.inj h
          rw [String.toList_ofList]
          refine ⟨((strip raw.toList).reverse.takeWhile (· == '/')).length, ?_, isFqdn_no_slash hfqdn⟩
          rw [endDots, rstripChar_append]
          have hslashes := congrArg (List.map lowerChar) (rstripChar_append '/' (strip raw.toList))
          rw [List.map_append, List.map_replicate] at hslashes
          exact hslashes.symm
        next => cases h

/-- What a line is looked up by: its name with its dots. -/
theorem denyKey_canonical (hstripped : strip raw.toList = raw.toList) (h : canonicalizeProbeDomain raw = some name) :
    denyKey raw = String.ofList (name.toList ++ List.replicate (endDots raw) '.') := by
  obtain ⟨slashes, hlower, hslash⟩ := canonicalize_spec h
  rw [hstripped] at hlower
  have hnone : ∀ d ∈ name.toList ++ List.replicate (endDots raw) '.', decide (d ≠ '/') = true := by
    intro d hd
    rcases List.mem_append.mp hd with hd | hd
    · exact decide_eq_true (fun heq => hslash (heq ▸ hd))
    · rw [List.eq_of_mem_replicate hd]
      rfl
  rw [denyKey, hlower, List.takeWhile_append_of_pos hnone]
  cases slashes with
  | zero => rw [List.replicate_zero, List.takeWhile_nil, List.append_nil]
  | succ n => rw [List.replicate_succ, List.takeWhile_cons_of_neg (by decide), List.append_nil]

theorem mem_keepDomain {kept : List String} {d : String} :
    d ∈ keepDomain kept raw ↔ d ∈ kept ∨ canonicalizeProbeDomain raw = some d := by
  rw [keepDomain]
  cases canonicalizeProbeDomain raw with
  | none => exact (or_iff_left (by simp)).symm
  | some fqdn =>
      dsimp only
      rw [Option.some.injEq]
      split
      next hmem => exact ⟨Or.inl, fun h => h.elim id (fun heq => heq ▸ hmem)⟩
      next => rw [List.mem_append, List.mem_singleton, eq_comm (a := d)]

theorem mem_filterProbeDomains {domains : List String} {d : String} :
    d ∈ filterProbeDomains domains ↔ ∃ raw ∈ domains, canonicalizeProbeDomain raw = some d := by
  have hfold : ∀ kept : List String, d ∈ domains.foldl keepDomain kept ↔
      d ∈ kept ∨ ∃ raw ∈ domains, canonicalizeProbeDomain raw = some d := by
    induction domains with
    | nil =>
        intro kept
        refine (or_iff_left ?_).symm
        rintro ⟨_, h, _⟩
        exact List.not_mem_nil h
    | cons raw domains ih =>
        intro kept
        rw [List.foldl_cons, ih, mem_keepDomain, or_assoc, List.exists_mem_cons_iff]
  exact (hfold []).trans (or_iff_right List.not_mem_nil)

/-- The name is the canonical form of an entry. -/
def Denied (denylist : List DenylistEntry) (name : String) : Prop :=
  ∃ e ∈ denylist, canonicalizeProbeDomain e.domain = some name

/-- Some entry is the name with as many dots behind it as the line has, and
without a slash. -/
def SpelledAs (denylist : List DenylistEntry) (line name : String) : Prop :=
  ∃ e ∈ denylist, e.domain.toList = name.toList ++ List.replicate (endDots line) '.'

theorem readDomainLines_stripped {line : String} (h : line ∈ readDomainLines text) :
    strip line.toList = line.toList := by
  obtain ⟨full, -, hline⟩ := List.mem_filterMap.mp h
  split at hline
  · cases hline
  · obtain rfl := Option.some.inj hline
    rw [String.toList_ofList, beforeHash, strip_strip]

theorem mem_applyDenylist {domains : List String} {denylist : List DenylistEntry} {line : String} :
    line ∈ (applyDenylist domains denylist false).1 ↔
      line ∈ domains ∧ ∀ e ∈ denylist, e.domain ≠ denyKey line := by
  rw [applyDenylist]
  split
  next h =>
    rcases h with h | h | h
    · cases h
    · rw [h]
      exact iff_of_false List.not_mem_nil (fun h => List.not_mem_nil h.1)
    · rw [h]
      exact (and_iff_left (List.forall_mem_nil _)).symm
  next =>
    rw [List.mem_filter, Bool.not_eq_true', List.any_eq_false]
    simp only [decide_eq_true_eq, ne_eq]

/-- Of a file, a denied name comes through exactly in a line that is spelled
otherwise than all entries. -/
theorem mem_loadRunDomains {denylist : List DenylistEntry} {name : String} :
    name ∈ loadRunDomains text denylist false ↔
      ∃ line ∈ readDomainLines text, canonicalizeProbeDomain line = some name ∧ ¬ SpelledAs denylist line name := by
  rw [loadRunDomains, mem_filterProbeDomains]
  refine exists_congr (fun line => ?_)
  rw [mem_applyDenylist, and_assoc]
  refine and_congr_right (fun hline => ?_)
  rw [and_comm]
  refine and_congr_right (fun hcanonical => ?_)
  rw [denyKey_canonical (readDomainLines_stripped hline) hcanonical, SpelledAs]
  push Not
  refine forall_congr' (fun e => forall_congr' (fun _ => not_congr ?_))
  rw [← String.toList_inj, String.toList_ofList]

theorem mem_finishLoaded {domains : List String} {d : String} : d ∈ (finishLoaded domains).1 ↔ d ∈ domains := by
  rw [finishLoaded]
  split
  next h => rw [h]
  next => exact Iff.rfl

/-- The domains of a run over a file are free of denied names exactly when each
line of the file with a denied name is spelled as an entry. -/
theorem denied_absent_iff (files : DomainFiles) (args : DomainArgs) (hsafe : args.allowUnsafe = false)
    (hfile : TakesFile args) :
    (∀ d ∈ (loadRunDomainsArgs files args).1, ¬ Denied (denylist files) d) ↔
      ∀ path text, sourceFile files args = some path → files.text path = some text →
        ∀ line ∈ readDomainLines text, ∀ name, canonicalizeProbeDomain line = some name →
          Denied (denylist files) name → SpelledAs (denylist files) line name := by
  rw [loadRunDomainsArgs, hsafe]
  cases hsource : sourceFile files args with
  | none =>
      have hempty : ¬ (args.domainsFile = "" ∧ args.preset = "") := by
        rintro ⟨hdomains, hpreset⟩
        rw [sourceFile, if_neg (not_not.mpr hdomains), if_neg (not_not.mpr hpreset)] at hsource
        rcases hfile with h | h | h
        · exact h hdomains
        · exact h hpreset
        · rw [if_neg (not_not.mpr h)] at hsource
          cases hsource
      dsimp only
      rw [if_neg hempty]
      exact iff_of_true (fun d hd => absurd hd List.not_mem_nil) (fun _ _ h => by cases h)
  | some path =>
      dsimp only
      cases htext : files.text path with
      | none =>
          refine iff_of_true (fun d hd => absurd hd List.not_mem_nil) (fun path' text h htext' => ?_)
          cases h
          rw [htext] at htext'
          cases htext'
      | some text =>
          constructor
          · intro h path' text' hpath htext' line hline name hcanonical hdenied
            cases hpath
            rw [htext] at htext'
            cases htext'
            by_contra hspelled
            exact h name (mem_finishLoaded.mpr (mem_loadRunDomains.mpr ⟨line, hline, hcanonical, hspelled⟩)) hdenied
          · intro h d hd hdenied
            obtain ⟨line, hline, hcanonical, hspelled⟩ := mem_loadRunDomains.mp (mem_finishLoaded.mp hd)
            exact hspelled (h path text rfl htext line hline d hcanonical hdenied)

/-- A run over the default list, with one denied name. -/
def listOf (line entry : String) : DomainFiles where
  text _ := some line.toList
  resolveDomainPreset _ := none
  defaultDomainsFile := "coverage-tcp.txt"
  bundledDenylist := entry.toList
  userDenylist := []

theorem plain_absent : Denied (denylist (listOf "Example.com" "example.com # bank")) "example.com" ∧
    "example.com" ∉ (loadRunDomainsArgs (listOf "Example.com" "example.com # bank") {}).1 := by
  have hdenied : Denied (denylist (listOf "Example.com" "example.com # bank")) "example.com" :=
    ⟨⟨"example.com", "bank"⟩, by decide +kernel, by decide +kernel⟩
  refine ⟨hdenied, fun hd => (denied_absent_iff _ {} rfl (Or.inr (Or.inr rfl))).mpr ?_ _ hd hdenied⟩
  intro path text _ htext line hline name hname _
  obtain rfl := Option.some.inj htext
  have hlines : readDomainLines "Example.com".toList = ["Example.com"] := by decide +kernel
  rw [hlines, List.mem_singleton] at hline
  subst hline
  have hcanonical : canonicalizeProbeDomain "Example.com" = some "example.com" := by decide +kernel
  obtain rfl := Option.some.inj (hcanonical.symm.trans hname)
  exact ⟨⟨"example.com", "bank"⟩, by decide +kernel, by decide +kernel⟩

/-- A dot behind the name in the domains file lets it through. -/
theorem dotted_probed : ¬ ∀ d ∈ (loadRunDomainsArgs (listOf "example.com." "example.com") {}).1,
    ¬ Denied (denylist (listOf "example.com." "example.com")) d := by
  intro h
  refine h "example.com" (by decide +kernel) ⟨⟨"example.com", ""⟩, by decide +kernel, by decide +kernel⟩

end Blockchecks.DomainDeny
