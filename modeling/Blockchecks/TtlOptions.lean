import Blockchecks.BlobScan
import Blockchecks.TextFile

namespace Blockchecks.TtlOptions

open StrategyText LuaConf NfqwsConfig ExportConf ExportFilter ConfRun Escaping ExportNumbers BlobScan

/-- A whole number, perhaps negative. -/
def integer (text : List Char) : Option Int :=
  let negative := startsWith text "-"
  let digits := if negative then text.drop 1 else text
  if digits ≠ [] ∧ digits.all Char.isDigit then
    some ((if negative then -1 else 1) * Nat.ofDigitChars 10 digits 0)
  else none

def valueOf (keyword : String) (option : List Char) : Option Int :=
  if startsWith option keyword then integer (option.drop keyword.toList.length) else none

/-- The number of an option ip_ttl=n or ip6_ttl=n. -/
def ttlOption (option : List Char) : Option Int := ["ip_ttl=", "ip6_ttl="].findSome? (valueOf · option)

def ttlOptions (core : List Char) : List Int := (core.splitOn ':').filterMap ttlOption

/-- The options that the check reads: a match takes the colon behind it along, so the
option after it is passed over. -/
def readOptions : List (List Char) → List Int
  | [] => []
  | [option] => (ttlOption option).toList
  | option :: next :: rest => match ttlOption option with
    | some n => n :: readOptions rest
    | none => readOptions (next :: rest)

def skippedOptions : List (List Char) → List Int
  | [] => []
  | [_] => []
  | option :: next :: rest => match ttlOption option with
    | some _ => (ttlOption next).toList ++ skippedOptions rest
    | none => skippedOptions (next :: rest)

theorem mem_options_iff (n : Int) (options : List (List Char)) :
    n ∈ options.filterMap ttlOption ↔ n ∈ readOptions options ∨ n ∈ skippedOptions options := by
  induction options using readOptions.induct with
  | case1 => simp [readOptions, skippedOptions]
  | case2 option => simp [readOptions, skippedOptions, eq_comm]
  | case3 option next rest v hv ih =>
      rw [List.filterMap_cons_some hv, readOptions, skippedOptions, hv]
      dsimp only
      cases hnext : ttlOption next with
      | none =>
          rw [List.filterMap_cons_none hnext, List.mem_cons, List.mem_cons, ih, or_assoc]
          rfl
      | some w =>
          rw [List.filterMap_cons_some hnext, List.mem_cons, List.mem_cons, List.mem_cons, ih]
          simp only [Option.toList_some, List.singleton_append, List.mem_cons]
          tauto
  | case4 option next rest hnone ih =>
      rw [List.filterMap_cons_none hnone, readOptions, skippedOptions, hnone, ih]

/-- What follows an option: the end of the core or a colon. -/
inductive Boundary : List Char → Prop where
  | last : Boundary []
  | colon (rest : List Char) : Boundary (':' :: rest)

/-- The digits of a number from start on, up to a colon or the end. -/
def numberEnd (sign : Int) (start : Nat) (body : List Char) : Option (Nat × Int) :=
  let digits := body.takeWhile Char.isDigit
  let rest := body.drop digits.length
  if digits = [] then none
  else if rest = [] then some (start + digits.length, sign * Nat.ofDigitChars 10 digits 0)
  else if startsWith rest ":" then some (start + digits.length + 1, sign * Nat.ofDigitChars 10 digits 0)
  else none

/-- One alternative of the expression, at the head of a text. -/
def ttlAt (keyword : String) (text : List Char) : Option (Nat × Int) :=
  if startsWith text keyword then
    let value := text.drop keyword.toList.length
    if startsWith value "-" then numberEnd (-1) (keyword.toList.length + 1) (value.drop 1)
    else numberEnd 1 keyword.toList.length value
  else none

theorem ttlParam_eq (text : List Char) : ttlParam text = ["ip_ttl=", "ip6_ttl="].findSome? (ttlAt · text) := by
  have hsame (keyword : String) : ttlAt keyword text =
      if startsWith text keyword then
        let value := text.drop keyword.toList.length
        let negative := startsWith value "-"
        let body := if negative then value.drop 1 else value
        let digits := body.takeWhile Char.isDigit
        let rest := body.drop digits.length
        let sign : Int := if negative then -1 else 1
        let length := keyword.toList.length + (if negative then 1 else 0) + digits.length
        if digits = [] then none
        else if rest = [] then some (length, sign * Nat.ofDigitChars 10 digits 0)
        else if startsWith rest ":" then some (length + 1, sign * Nat.ofDigitChars 10 digits 0)
        else none
      else none := by
    rw [ttlAt]
    cases hneg : startsWith (text.drop keyword.toList.length) "-" <;> simp only [hneg] <;> rfl
  rw [ttlParam]
  simp only [hsame]

variable {option rest : List Char}

theorem startsWith_boundary {word : String} (hword : ':' ∉ word.toList) (text : List Char) (h : Boundary rest) :
    startsWith (text ++ rest) word = startsWith text word := by
  cases h with
  | last => rw [List.append_nil]
  | colon rest => exact isPrefixOf_colon hword text rest

theorem numberEnd_boundary (sign : Int) (start : Nat) {body : List Char} (hbody : ':' ∉ body) (h : Boundary rest) :
    numberEnd sign start (body ++ rest) =
      if body ≠ [] ∧ body.all Char.isDigit then
        some (start + body.length + (if rest = [] then 0 else 1), sign * Nat.ofDigitChars 10 body 0)
      else none := by
  obtain ⟨digits, tail, rfl, hdigits, htail⟩ := digits_split body
  have hall : digits.all Char.isDigit = true := List.all_eq_true.mpr hdigits
  cases tail with
  | nil =>
      rw [List.append_nil, numberEnd]
      have hrest : rest.head?.any Char.isDigit = false := by cases h <;> rfl
      simp only [takeWhile_digits hdigits hrest, List.drop_left, hall, and_true, ne_eq, ite_not]
      cases h <;> rfl
  | cons c tail =>
      have hc : c.isDigit = false := htail
      have hrest : (c :: (tail ++ rest)).head?.any Char.isDigit = false := hc
      have hcolon : c ≠ ':' := fun hcolon => hbody (List.mem_append_right _ (hcolon ▸ List.mem_cons_self))
      have hstop : startsWith (c :: (tail ++ rest)) ":" = false := by
        have hsingle : ":".toList = [':'] := rfl
        rw [startsWith, hsingle, List.isPrefixOf_cons_cons, beq_eq_false_iff_ne.mpr (Ne.symm hcolon)]
        rfl
      have hnot : (digits ++ c :: tail).all Char.isDigit = false := by
        rw [List.all_append, List.all_cons, hc, Bool.false_and, Bool.and_false]
      rw [List.append_assoc, List.cons_append, numberEnd]
      simp only [takeWhile_digits hdigits hrest, List.drop_left, hstop, hnot]
      simp

/-- A number up to the boundary is matched with the colon, if there is one. -/
theorem ttlAt_boundary {keyword : String} (hkeyword : ':' ∉ keyword.toList) (hoption : ':' ∉ option)
    (h : Boundary rest) : ttlAt keyword (option ++ rest) =
      (valueOf keyword option).map (fun n => (option.length + if rest = [] then 0 else 1, n)) := by
  rw [ttlAt, valueOf, startsWith_boundary hkeyword option h]
  split
  next hstart =>
    obtain ⟨value, rfl⟩ := List.isPrefixOf_iff_prefix.mp hstart
    have hvalue : ':' ∉ value := fun hmem => hoption (List.mem_append_right _ hmem)
    have hdash : startsWith (value ++ rest) "-" = startsWith value "-" := startsWith_boundary (by decide) value h
    rw [List.append_assoc, List.drop_left, List.drop_left, integer]
    dsimp only
    rw [hdash]
    cases hneg : startsWith value "-" with
    | true =>
        obtain ⟨body, rfl⟩ := List.isPrefixOf_iff_prefix.mp hneg
        have hbody : ':' ∉ body := fun hmem => hvalue (List.mem_append_right _ hmem)
        have hdrop (text : List Char) : ("-".toList ++ text).drop 1 = text := rfl
        simp only [if_true, List.append_assoc, hdrop, numberEnd_boundary (-1) (keyword.toList.length + 1) hbody h]
        split
        · rw [Option.map_some, List.length_append, List.length_append, ← Nat.add_assoc]
          rfl
        · rfl
    | false =>
        simp only [Bool.false_eq_true, if_false, numberEnd_boundary 1 keyword.toList.length hvalue h]
        split
        · rw [Option.map_some, List.length_append]
        · rfl
  next => rfl

theorem ttlParam_boundary (hoption : ':' ∉ option) (h : Boundary rest) : ttlParam (option ++ rest) =
    (ttlOption option).map (fun n => (option.length + if rest = [] then 0 else 1, n)) := by
  rw [ttlParam_eq, ttlOption, List.findSome?_cons, List.findSome?_cons, List.findSome?_cons, List.findSome?_cons,
    ttlAt_boundary (by decide) hoption h, ttlAt_boundary (by decide) hoption h]
  cases valueOf "ip_ttl=" option with
  | some n => rfl
  | none => cases valueOf "ip6_ttl=" option <;> rfl

theorem finditer_option (hoption : ':' ∉ option) (rest : List Char) :
    finditer colonTtlParam (option ++ rest) = finditer colonTtlParam rest := by
  induction option with
  | nil => rfl
  | cons c option ih =>
      rw [List.mem_cons, not_or] at hoption
      have hnone : colonTtlParam (c :: (option ++ rest)) = none := by
        rw [colonTtlParam]
        rintro tail heq
        exact hoption.1 (List.cons.inj heq).1.symm
      rw [List.cons_append, finditer_none hnone, ih hoption.2]

/-- The options with colons between them, and what stands behind the first of them. -/
def joined (options : List (List Char)) : List Char := [':'].intercalate options

def tailOf : List (List Char) → List Char
  | [] => []
  | options => ':' :: joined options

theorem joined_cons (option : List Char) (options : List (List Char)) :
    joined (option :: options) = option ++ tailOf options := by
  cases options with
  | nil => rw [joined, List.intercalate_singleton, tailOf, List.append_nil]
  | cons next options =>
      rw [joined, List.intercalate_cons_cons, List.append_assoc]
      rfl

theorem tailOf_boundary (options : List (List Char)) : Boundary (tailOf options) := by
  cases options with
  | nil => exact .last
  | cons next options => exact .colon _

theorem tailOf_eq_nil_iff (options : List (List Char)) : tailOf options = [] ↔ options = [] := by
  cases options with
  | nil => exact ⟨fun _ => rfl, fun _ => rfl⟩
  | cons next options => exact ⟨fun h => absurd h (List.cons_ne_nil _ _), fun h => absurd h (List.cons_ne_nil _ _)⟩

theorem ttlParam_joined (hoption : ':' ∉ option) (options : List (List Char)) :
    ttlParam (joined (option :: options)) =
      (ttlOption option).map (fun n => (option.length + if options = [] then 0 else 1, n)) := by
  rw [joined_cons, ttlParam_boundary hoption (tailOf_boundary options)]
  simp only [tailOf_eq_nil_iff]

theorem ttlParam_length (options : List (List Char)) (h : ∀ o ∈ options, ':' ∉ o) {n : Nat} {v : Int}
    (hparam : ttlParam (joined options) = some (n, v)) : n ≤ (joined options).length := by
  cases options with
  | nil =>
      have hnone : ttlParam (joined []) = none := by decide
      exact absurd (hnone.symm.trans hparam) (Option.some_ne_none _).symm
  | cons option options =>
      rw [ttlParam_joined (h option List.mem_cons_self)] at hparam
      obtain ⟨_, _, heq⟩ := Option.map_eq_some_iff.mp hparam
      rw [← (Prod.mk.inj heq).1, joined_cons, List.length_append]
      cases options with
      | nil => exact Nat.le_refl _
      | cons next options =>
          rw [if_neg (List.cons_ne_nil _ _), tailOf, List.length_cons]
          · omega
          · exact List.cons_ne_nil _ _

/-- After a colon the expression reads as at the start of a core. -/
theorem finditer_colon (text : List Char) (h : ∀ {n v}, ttlParam text = some (n, v) → n ≤ text.length) :
    finditer colonTtlParam (':' :: text) = ttlValues text := by
  rw [ttlValues]
  cases hparam : ttlParam text with
  | none =>
      have hnone : colonTtlParam (':' :: text) = none := by rw [colonTtlParam, hparam]; rfl
      rw [finditer_none hnone]
  | some p =>
      obtain ⟨n, v⟩ := p
      have hlen := h hparam
      have hsplit : ':' :: text = (':' :: text.take n) ++ text.drop n := by
        rw [List.cons_append, List.take_append_drop]
      have hsome : colonTtlParam ((':' :: text.take n) ++ text.drop n) = some ((':' :: text.take n).length, v) := by
        rw [← hsplit, colonTtlParam, hparam, List.length_cons, List.length_take, Nat.min_eq_left hlen]
        rfl
      rw [hsplit, finditer_some (List.cons_ne_nil _ _) hsome]

/-- The check reads the options of a core from the left, passing over the one behind each
that it takes. -/
theorem ttlValues_joined {options : List (List Char)} (h : ∀ o ∈ options, ':' ∉ o) :
    ttlValues (joined options) = readOptions options := by
  induction options using readOptions.induct with
  | case1 => rfl
  | case2 option =>
      have hoption := h option List.mem_cons_self
      have hnone : finditer colonTtlParam option = [] := by
        have hall := finditer_option hoption []
        rw [List.append_nil] at hall
        exact hall
      have hjoined : joined [option] = option := List.intercalate_singleton
      rw [ttlValues, ttlParam_joined hoption, hjoined, readOptions]
      cases ttlOption option with
      | none => exact hnone
      | some v =>
          simp only [Option.map_some, if_true, Nat.add_zero, List.drop_length]
          rfl
  | case3 option next rest v hv ih =>
      have hnext := h next (List.mem_cons_of_mem _ List.mem_cons_self)
      have hrest : ∀ o ∈ rest, ':' ∉ o := fun o ho => h o (List.mem_cons_of_mem _ (List.mem_cons_of_mem _ ho))
      have hdrop : (joined (option :: next :: rest)).drop (option.length + 1) = joined (next :: rest) := by
        rw [joined_cons, List.drop_append, List.drop_of_length_le (Nat.le_succ _), Nat.add_sub_cancel_left]
        rfl
      have htail : finditer colonTtlParam (tailOf rest) = readOptions rest := by
        cases rest with
        | nil => rfl
        | cons o os => exact (finditer_colon _ (ttlParam_length _ hrest)).trans (ih hrest)
      rw [ttlValues, ttlParam_joined (h option List.mem_cons_self), hv, readOptions, hv]
      simp only [Option.map_some, if_neg (List.cons_ne_nil next rest), hdrop]
      rw [joined_cons, finditer_option hnext, htail]
  | case4 option next rest hnone ih =>
      have hlater : ∀ o ∈ next :: rest, ':' ∉ o := fun o ho => h o (List.mem_cons_of_mem _ ho)
      rw [ttlValues, ttlParam_joined (h option List.mem_cons_self), hnone, readOptions, hnone]
      simp only [Option.map_none]
      rw [joined_cons, finditer_option (h option List.mem_cons_self)]
      exact (finditer_colon _ (ttlParam_length _ hlater)).trans (ih hlater)

theorem not_mem_option {core option : List Char} (h : option ∈ core.splitOn ':') : ':' ∉ option := by
  intro hmem
  rw [List.splitOn_eq_splitOnP] at h
  exact absurd (TextFile.mem_splitOnP_not h hmem) (by decide)

theorem ttlValues_eq (core : List Char) : ttlValues core = readOptions (core.splitOn ':') := by
  have hjoined : joined (core.splitOn ':') = core := List.intercalate_splitOn ':'
  have hread : ttlValues (joined (core.splitOn ':')) = readOptions (core.splitOn ':') :=
    ttlValues_joined fun o ho => not_mem_option ho
  rw [hjoined] at hread
  exact hread

theorem integer_spec {text : List Char} {n : Int} (h : integer text = some n) : ∃ sign digits,
    text = sign ++ digits ∧ (∀ c ∈ sign, c = '-') ∧ digits ≠ [] ∧ ∀ c ∈ digits, c.isDigit = true := by
  cases hneg : startsWith text "-" with
  | true =>
      obtain ⟨body, rfl⟩ := List.isPrefixOf_iff_prefix.mp hneg
      rw [integer, hneg] at h
      obtain ⟨hne, hall⟩ := (Option.ite_none_right_eq_some.mp h).1
      exact ⟨['-'], body, rfl, fun c hc => List.mem_singleton.mp hc, hne, List.all_eq_true.mp hall⟩
  | false =>
      rw [integer, hneg] at h
      obtain ⟨hne, hall⟩ := (Option.ite_none_right_eq_some.mp h).1
      exact ⟨[], text, rfl, fun c hc => absurd hc List.not_mem_nil, hne, List.all_eq_true.mp hall⟩

/-- The characters of an option with a number: the keyword, a sign, digits at the end. -/
theorem ttlOption_spec {n : Int} (h : ttlOption option = some n) : ∃ keyword ∈ ["ip_ttl=", "ip6_ttl="], ∃ sign digits,
    option = keyword.toList ++ (sign ++ digits) ∧ (∀ c ∈ sign, c = '-') ∧ digits ≠ [] ∧
      ∀ c ∈ digits, c.isDigit = true := by
  obtain ⟨keyword, hkeyword, hvalue⟩ := List.exists_of_findSome?_eq_some h
  rw [valueOf] at hvalue
  obtain ⟨hstart, hvalue⟩ := Option.ite_none_right_eq_some.mp hvalue
  obtain ⟨value, rfl⟩ := List.isPrefixOf_iff_prefix.mp hstart
  rw [List.drop_left] at hvalue
  obtain ⟨sign, digits, rfl, hparts⟩ := integer_spec hvalue
  exact ⟨keyword, hkeyword, sign, digits, rfl, hparts⟩

theorem equals_mem_of_ttl {n : Int} (h : ttlOption option = some n) : '=' ∈ option := by
  obtain ⟨keyword, hkeyword, sign, digits, rfl, _, _, _⟩ := ttlOption_spec h
  refine List.mem_append_left _ ?_
  have hall : ∀ keyword ∈ ["ip_ttl=", "ip6_ttl="], '=' ∈ keyword.toList := by decide
  exact hall keyword hkeyword

theorem bracket_not_mem_of_ttl {n : Int} (h : ttlOption option = some n) : '<' ∉ option := by
  obtain ⟨keyword, hkeyword, sign, digits, rfl, hsign, _, hdigits⟩ := ttlOption_spec h
  have hall : ∀ keyword ∈ ["ip_ttl=", "ip6_ttl="], '<' ∉ keyword.toList := by decide
  intro hmem
  rcases List.mem_append.mp hmem with hmem | hmem
  · exact hall keyword hkeyword hmem
  · rcases List.mem_append.mp hmem with hmem | hmem
    · exact absurd (hsign _ hmem) (by decide)
    · exact absurd (hdigits _ hmem) (by decide)

theorem isDigit_not_space {c : Char} (h : c.isDigit = true) : isSpace c = false := by
  rw [Char.isDigit, Bool.and_eq_true, decide_eq_true_iff, decide_eq_true_iff] at h
  have hlow : 48 ≤ c.toNat := h.1
  have hhigh : c.toNat ≤ 57 := h.2
  rw [isSpace, Bool.or_eq_false_iff, decide_eq_false_iff_not, decide_eq_false_iff_not]
  constructor
  · simp only [List.mem_cons, List.not_mem_nil, or_false]
    omega
  · omega

theorem ttlOption_space {c : Char} (h : option.getLast? = some c) (hc : isSpace c = true) : ttlOption option = none := by
  cases hn : ttlOption option with
  | none => rfl
  | some n =>
      obtain ⟨keyword, _, sign, digits, rfl, _, hne, hdigits⟩ := ttlOption_spec hn
      rw [List.getLast?_append_of_ne_nil _ (by simp [hne]), List.getLast?_append_of_ne_nil _ hne] at h
      have hdigit := hdigits c (List.mem_of_getLast? h)
      rw [isDigit_not_space hdigit] at hc
      exact absurd hc Bool.false_ne_true

theorem ttlOptions_colon (front back : List Char) : ttlOptions (front ++ ':' :: back) = ttlOptions front ++ ttlOptions back := by
  rw [ttlOptions, List.splitOn_append_cons_self, List.filterMap_append]
  rfl

theorem ttlOptions_single (h : ':' ∉ option) : ttlOptions option = (ttlOption option).toList := by
  rw [ttlOptions, List.splitOn_eq_singleton h]
  cases hn : ttlOption option with
  | none => rw [List.filterMap_cons_none hn]; rfl
  | some n => rw [List.filterMap_cons_some hn]; rfl

/-- A core is cut at its first colon until none is left. -/
theorem colon_induction {P : List Char → Prop} (single : ∀ option, ':' ∉ option → P option)
    (colon : ∀ option rest, ':' ∉ option → P rest → P (option ++ ':' :: rest)) (core : List Char) : P core := by
  have hjoined : joined (core.splitOn ':') = core := List.intercalate_splitOn ':'
  have hplain : ∀ o ∈ core.splitOn ':', ':' ∉ o := fun o ho => not_mem_option ho
  rw [← hjoined]
  generalize core.splitOn ':' = options at hplain
  induction options with
  | nil => exact single [] List.not_mem_nil
  | cons option options ih =>
      have hoption := hplain option List.mem_cons_self
      rw [joined_cons]
      cases options with
      | nil =>
          rw [tailOf, List.append_nil]
          exact single option hoption
      | cons next options => exact colon option _ hoption (ih fun o ho => hplain o (List.mem_cons_of_mem _ ho))

theorem ttlOptions_no_equals (core : List Char) (h : '=' ∉ core) : ttlOptions core = [] := by
  induction core using colon_induction with
  | single option hoption =>
      rw [ttlOptions_single hoption]
      cases hn : ttlOption option with
      | none => rfl
      | some n => exact absurd (equals_mem_of_ttl hn) h
  | colon option rest hoption ih =>
      rw [List.mem_append, List.mem_cons, not_or, not_or] at h
      rw [ttlOptions_colon, ih h.2.2, List.append_nil, ttlOptions_single hoption]
      cases hn : ttlOption option with
      | none => rfl
      | some n => exact absurd (equals_mem_of_ttl hn) h.1

theorem ttlOption_escape (option : List Char) : ttlOption (escapeConfLt option) = ttlOption option := by
  by_cases hmem : '<' ∈ option
  · have hescaped : '<' ∈ escapeConfLt option := by
      obtain ⟨a, b, rfl⟩ := List.append_of_mem hmem
      rw [escapeConfLt_eq, escape_append, escape_bad]
      simp
    cases hn : ttlOption option with
    | some n => exact absurd hmem (bracket_not_mem_of_ttl hn)
    | none =>
        cases hn' : ttlOption (escapeConfLt option) with
        | some n => exact absurd hescaped (bracket_not_mem_of_ttl hn')
        | none => rfl
  · rw [escapeConfLt_eq, escape_eq_self hmem]

theorem colon_not_mem_escape (h : ':' ∉ option) : ':' ∉ escapeConfLt option := by
  intro hmem
  obtain ⟨c, hc, hin⟩ := List.mem_flatMap.mp hmem
  split at hin
  · exact absurd hin (by decide)
  · rw [List.mem_singleton] at hin
    exact h (hin ▸ hc)

theorem ttlOptions_escape (core : List Char) : ttlOptions (escapeConfLt core) = ttlOptions core := by
  induction core using colon_induction with
  | single option hoption =>
      rw [ttlOptions_single hoption, ttlOptions_single (colon_not_mem_escape hoption), ttlOption_escape]
  | colon option rest hoption ih =>
      have hsplit : escapeConfLt (option ++ ':' :: rest) = escapeConfLt option ++ ':' :: escapeConfLt rest := by
        rw [escapeConfLt_eq, escape_append, escape_cons (by decide)]
        rfl
      rw [hsplit, ttlOptions_colon, ttlOptions_colon, ih, ttlOptions_single hoption,
        ttlOptions_single (colon_not_mem_escape hoption), ttlOption_escape]

end Blockchecks.TtlOptions
