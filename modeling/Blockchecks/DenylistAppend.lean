import Blockchecks.DomainSpelling
import Blockchecks.TextFile

namespace Blockchecks.DenylistAppend

open StrategyText LuaConf DomainLoader TextLines TextFile DomainSpelling

/-- A quarantined domain. A key that is missing reads as the empty text. -/
structure Entry where
  domain : String
  ts : String
  reason : String

/-- The domain of an entry, stripped and in lower case. -/
def Entry.name (e : Entry) : List Char := (strip e.domain.toList).map lowerChar

def Entry.comment (e : Entry) : List Char := (" auto-quarantine " ++ e.ts ++ " (" ++ e.reason ++ ")").toList

def Entry.line (e : Entry) : List Char := e.name ++ "  #".toList ++ e.comment ++ ['\n']

/-- What append_denylist takes a line of the file to list. -/
def token (line : List Char) : List Char := (strip (line.takeWhile (· ≠ '#'))).map lowerChar

def existing (text : List Char) : List (List Char) :=
  ((split (universalNewlines text) "\n").map token).filter (· ≠ [])

/-- The entries that are written. -/
def written (seen : List (List Char)) : List Entry → List Entry
  | [] => []
  | e :: entries =>
      if e.name = [] ∨ seen.contains e.name then written seen entries
      else e :: written (e.name :: seen) entries

def appendDenylist (text : List Char) (entries : List Entry) : List Char :=
  text ++ (written (existing text) entries).flatMap Entry.line

/-- The domains that _parse_denylist_file reads. -/
def denied (text : List Char) : List String := (parseDenylistFile (universalNewlines text)).map DenylistEntry.domain

/-- What a text lists in its lines, whatever ends these. -/
def names (text : List Char) : List (List Char) := ((text.splitOnP isNewline).map token).filter (· ≠ [])

/-- The last line of a text; empty behind a newline. -/
def lastLine (text : List Char) : List Char := (text.reverse.takeWhile (fun c => !isNewline c)).reverse

def fullLines (text : List Char) : List Char := (text.reverse.dropWhile (fun c => !isNewline c)).reverse

/-- The names that the reader finds behind the first newline of a comment. -/
def spilled (e : Entry) : List (List Char) := names ((e.comment.dropWhile (fun c => !isNewline c)).drop 1)

/-- What the file should list after the append. -/
def Wanted (text : List Char) (entries : List Entry) (n : List Char) : Prop :=
  n ∈ names text ∨ ∃ e ∈ entries, e.name ≠ [] ∧ n = e.name

/-- The append lists what it should, and a second one finds nothing new. -/
structure Appended (text : List Char) (entries : List Entry) : Prop where
  lists : ∀ d, d ∈ denied (appendDenylist text entries) ↔
    d ∈ denied text ∨ ∃ e ∈ entries, e.name ≠ [] ∧ d = String.ofList e.name
  again : appendDenylist (appendDenylist text entries) entries = appendDenylist text entries

/-- A last line without its newline, which the first new line runs on from, does no harm when the
line that comes of it lists nothing new and the names of both stand elsewhere. -/
structure Joined (text : List Char) (entries : List Entry) (first : Entry) (rest : List Entry) : Prop where
  joined : token (lastLine text ++ first.name) = [] ∨ Wanted text entries (token (lastLine text ++ first.name))
  elsewhere : ∀ n ∈ [first.name, token (lastLine text)], n ≠ [] → n ∈ names (fullLines text) ∨
    n = token (lastLine text ++ first.name) ∨ n ∈ spilled first ∨ ∃ e ∈ rest, n = e.name ∨ n ∈ spilled e

/-- No new domain has a comment sign or a newline in it, no comment lists a name of its own behind
a newline, and the first new line begins a line of the file. -/
structure Fits (text : List Char) (entries : List Entry) : Prop where
  clean : ∀ e ∈ written (existing text) entries, '#' ∉ e.name ∧ ∀ c ∈ e.name, isNewline c = false
  spilled_wanted : ∀ e ∈ written (existing text) entries, ∀ n ∈ spilled e, Wanted text entries n
  place : ∀ first rest, written (existing text) entries = first :: rest →
    (∀ c ∈ lastLine text, isSpace c = true) ∨ Joined text entries first rest

variable {text line : List Char} {n : List Char} {c : Char} {e : Entry} {entries : List Entry}

section lines

theorem dropWhile_hash (line rest : List Char) :
    (line ++ '#' :: rest).dropWhile isSpace = line.dropWhile isSpace ++ '#' :: rest := by
  rw [List.dropWhile_append]
  split
  next h =>
    rw [List.isEmpty_iff.mp h]
    exact List.dropWhile_cons_of_neg (by decide)
  next => rfl

/-- Stripping a line does not touch what stands in front of a comment. -/
theorem strip_hash (line rest : List Char) : ∃ rest', strip (line ++ '#' :: rest) = line.dropWhile isSpace ++ '#' :: rest' := by
  rw [strip, dropWhile_hash, List.reverse_append, List.reverse_cons, List.append_assoc, List.singleton_append,
    dropWhile_hash, List.reverse_append, List.reverse_cons, List.reverse_reverse, List.append_assoc]
  exact ⟨_, rfl⟩

theorem strip_dropWhile (text : List Char) : strip (text.dropWhile isSpace) = strip text := by
  induction text with
  | nil => rfl
  | cons c text ih =>
      cases hc : isSpace c with
      | true => rw [List.dropWhile_cons_of_pos hc, ih, strip_cons_space hc]
      | false => rw [List.dropWhile_cons_of_neg (Bool.eq_false_iff.mp hc)]

theorem plain_of_no_hash (h : '#' ∉ line) : ∀ c ∈ line, decide (c ≠ '#') = true :=
  fun c hc => decide_eq_true fun heq : c = '#' => h (heq ▸ hc)

theorem takeWhile_hash (h : '#' ∉ line) (rest : List Char) : (line ++ '#' :: rest).takeWhile (· ≠ '#') = line := by
  rw [List.takeWhile_append_of_pos (plain_of_no_hash h), List.takeWhile_cons_of_neg (by decide), List.append_nil]

theorem takeWhile_no_hash (h : '#' ∉ line) : line.takeWhile (· ≠ '#') = line :=
  List.takeWhile_eq_self_iff.mpr (plain_of_no_hash h)

theorem hash_cases (line : List Char) : '#' ∉ line ∨ ∃ front rest, '#' ∉ front ∧ line = front ++ '#' :: rest := by
  by_cases h : '#' ∈ line
  · obtain ⟨front, rest, hsplit, hfront⟩ := List.eq_append_cons_of_mem h
    exact Or.inr ⟨front, rest, hfront, hsplit⟩
  · exact Or.inl h

theorem token_hash (h : '#' ∉ line) (rest : List Char) : token (line ++ '#' :: rest) = token line := by
  rw [token, token, takeWhile_hash h, takeWhile_no_hash h]

/-- Reader and writer take a line to list the same. -/
theorem token_strip (line : List Char) : token (strip line) = token line := by
  rcases hash_cases line with h | ⟨front, rest, hfront, rfl⟩
  · have hstrip : '#' ∉ strip line := fun hin => h ((infix_strip line).subset hin)
    rw [token, token, takeWhile_no_hash h, takeWhile_no_hash hstrip, strip_strip]
  · obtain ⟨rest', hrest⟩ := strip_hash front rest
    have hdrop : '#' ∉ front.dropWhile isSpace := fun hin => hfront ((List.dropWhile_suffix _).subset hin)
    rw [hrest, token_hash hdrop, token_hash hfront, token, token, takeWhile_no_hash hdrop, takeWhile_no_hash hfront,
      strip_dropWhile]

theorem hash_not_mem_token (line : List Char) : '#' ∉ token line := by
  intro hin
  obtain ⟨c, hc, hlower⟩ := List.mem_map.mp hin
  have hsame : (c == '#') = true := by
    rw [← beq_lowerChar (by decide) c, hlower]
    rfl
  have hmem := (infix_strip _).subset hc
  have hnot := List.mem_takeWhile_imp (p := (fun c => decide (c ≠ '#'))) hmem
  exact of_decide_eq_true hnot (beq_iff_eq.mp hsame)

theorem isNewline_lowerChar (c : Char) : isNewline (lowerChar c) = isNewline c := by
  rw [isNewline, isNewline, beq_lowerChar (by decide), beq_lowerChar (by decide)]

theorem token_unbroken (h : ∀ c ∈ line, isNewline c = false) : ∀ c ∈ token line, isNewline c = false := by
  intro c hin
  obtain ⟨d, hd, rfl⟩ := List.mem_map.mp hin
  rw [isNewline_lowerChar]
  exact h d ((List.takeWhile_sublist _).subset ((infix_strip _).subset hd))

theorem token_blank (h : ∀ c ∈ line, isSpace c = true) : token line = [] := by
  have hstrip : strip (line.takeWhile (· ≠ '#')) = [] := by
    have hdrop : (line.takeWhile (· ≠ '#')).dropWhile isSpace = [] := by
      rw [List.dropWhile_eq_nil_iff]
      exact fun c hc => h c ((List.takeWhile_sublist _).subset hc)
    rw [strip, hdrop]
    rfl
  rw [token, hstrip]
  rfl

theorem strip_blank_append {blank : List Char} (h : ∀ c ∈ blank, isSpace c = true) (text : List Char) :
    strip (blank ++ text) = strip text := by
  induction blank with
  | nil => rfl
  | cons c blank ih =>
      rw [List.cons_append, strip_cons_space (h c List.mem_cons_self)]
      exact ih fun d hd => h d (List.mem_cons_of_mem _ hd)

theorem strip_blanks_behind (text : List Char) : strip (text ++ [' ', ' ']) = strip text := by
  have hsplit : text ++ [' ', ' '] = (text ++ [' ']) ++ [' '] := by rw [List.append_assoc]; rfl
  rw [hsplit, strip_concat_space (by decide), strip_concat_space (by decide)]

/-- The comment of a line adds nothing to what the line lists. -/
theorem token_commented (line rest : List Char) : token (line ++ ("  #".toList ++ rest)) = token line := by
  have hsplit (line : List Char) : line ++ ("  #".toList ++ rest) = (line ++ [' ', ' ']) ++ '#' :: rest := by
    rw [List.append_assoc]
    rfl
  rcases hash_cases line with h | ⟨front, behind, hfront, rfl⟩
  · have hblank : '#' ∉ line ++ [' ', ' '] := by
      intro hin
      rcases List.mem_append.mp hin with hin | hin
      · exact h hin
      · exact absurd hin (by decide)
    rw [hsplit, token_hash hblank, token, token, takeWhile_no_hash hblank, takeWhile_no_hash h, strip_blanks_behind]
  · rw [List.append_assoc, List.cons_append, token_hash hfront, token_hash hfront]

theorem token_name (e : Entry) (h : '#' ∉ e.name) : token e.name = e.name := by
  have hlower : (strip e.domain.toList).map (lowerChar ∘ lowerChar) = e.name :=
    List.map_congr_left fun c _ => lowerChar_lowerChar c
  rw [token, takeWhile_no_hash h, Entry.name, strip_lower, List.map_map, strip_strip]
  exact hlower

end lines

section names

@[simp] theorem names_nil : names [] = [] := rfl

theorem names_append_newline (hc : isNewline c = true) (a b : List Char) : names (a ++ c :: b) = names a ++ names b := by
  rw [names, List.splitOnP_append_cons a b hc, List.map_append, List.filter_append]
  rfl

theorem names_line (h : ∀ c ∈ line, isNewline c = false) : names line = [token line].filter (· ≠ []) := by
  rw [names, List.splitOnP_eq_singleton h]
  rfl

theorem mem_names (h : n ∈ names text) : n ≠ [] ∧ '#' ∉ n ∧ ∀ c ∈ n, isNewline c = false := by
  obtain ⟨hn, hne⟩ := List.mem_filter.mp h
  obtain ⟨line, hline, rfl⟩ := List.mem_map.mp hn
  exact ⟨of_decide_eq_true hne, hash_not_mem_token line, token_unbroken fun c hc => mem_splitOnP_not hline hc⟩

theorem existing_eq (text : List Char) : existing text = names text := by
  obtain ⟨part, parts, parts', h, h', hblank⟩ := splitOn_universalNewlines text
  have hfilter (parts : List (List Char)) : (parts.map token).filter (· ≠ []) =
      ((parts.filter (· ≠ [])).map token).filter (· ≠ []) := by
    induction parts with
    | nil => rfl
    | cons part parts ih =>
        by_cases hpart : part = []
        · rw [hpart, List.map_cons, List.filter_cons_of_neg (by decide), List.filter_cons_of_neg (by decide), ih]
        · have hkeep : decide (part ≠ []) = true := decide_eq_true hpart
          rw [List.filter_cons_of_pos (p := fun l => decide (l ≠ [])) hkeep, List.map_cons, List.map_cons, List.filter_cons, List.filter_cons, ih]
  rw [existing, names, split_char (c := '\n') rfl, h, h', List.map_cons, List.map_cons, List.filter_cons,
    List.filter_cons, hfilter parts, hblank, ← hfilter parts']

theorem lines_denied (line : List Char) : (if strip line ≠ [] ∧ startsWith (strip line) "#" = false then
      (if '#' ∈ strip line then (beforeHash (strip line)).map lowerChar else (strip line).map lowerChar)
      else []) = token line := by
  rw [← token_strip line, token]
  split
  next h =>
    split
    next => rfl
    next hno => rw [takeWhile_no_hash hno, strip_strip]
  next h =>
    have hempty : (strip line).takeWhile (· ≠ '#') = [] := by
      cases hline : strip line with
      | nil => rfl
      | cons c rest =>
          rw [hline] at h
          refine List.takeWhile_cons_of_neg fun hc => h ⟨List.cons_ne_nil _ _, ?_⟩
          have hne : '#' ≠ c := fun heq => of_decide_eq_true hc heq.symm
          simp [startsWith, List.isPrefixOf, hne]
    rw [hempty]
    rfl

/-- The reader of the denylist finds the same names. -/
theorem mem_denied (text : List Char) (d : String) : d ∈ denied text ↔ d.toList ∈ names text := by
  rw [← existing_eq, existing, denied, parseDenylistFile]
  simp only [List.mem_map, List.mem_filterMap, List.mem_filter, Bool.and_eq_true, Bool.not_eq_true',
    List.isEmpty_eq_false_iff, decide_eq_true_eq]
  constructor
  · rintro ⟨entry, ⟨_, ⟨⟨line, hline, rfl⟩, hkeep⟩, hentry⟩, rfl⟩
    have htoken := lines_denied line
    rw [if_pos hkeep] at htoken
    rw [htoken] at hentry
    split at hentry
    · cases hentry
    next hne =>
      rw [← Option.some.inj hentry, String.toList_ofList]
      exact ⟨⟨line, hline, rfl⟩, hne⟩
  · rintro ⟨⟨line, hline, htoken⟩, hne⟩
    have hkeep : strip line ≠ [] ∧ startsWith (strip line) "#" = false := by
      by_contra hno
      have hnil := lines_denied line
      rw [if_neg hno] at hnil
      rw [← htoken, ← hnil] at hne
      exact hne rfl
    have hdomain := lines_denied line
    rw [if_pos hkeep, htoken] at hdomain
    refine ⟨_, ⟨strip line, ⟨⟨line, hline, rfl⟩, hkeep⟩, if_neg (hdomain ▸ hne)⟩, ?_⟩
    rw [hdomain, String.ofList_toList]

/-- Up to its last line a text lists what it lists whatever is appended. -/
theorem names_append (text more : List Char) :
    names (text ++ more) = names (fullLines text) ++ names (lastLine text ++ more) := by
  have hsplit : fullLines text ++ lastLine text = text := by
    rw [fullLines, lastLine, ← List.reverse_append, List.takeWhile_append_dropWhile, List.reverse_reverse]
  have hfull : names (fullLines text) ++ names (lastLine text ++ more) =
      names (fullLines text ++ (lastLine text ++ more)) := by
    obtain hnil | ⟨front, c, hfront⟩ := List.eq_nil_or_concat' (fullLines text)
    · rw [hnil, names_nil, List.nil_append, List.nil_append]
    · have hc : isNewline c = true := by
        have hhead := List.head?_dropWhile_not (fun c => !isNewline c) text.reverse
        rw [← List.getLast?_reverse, ← fullLines, hfront, List.getLast?_concat] at hhead
        simpa using hhead
      have hempty := names_append_newline hc front []
      rw [names_nil, List.append_nil] at hempty
      rw [hfront, hempty, List.append_assoc, List.singleton_append, names_append_newline hc]
  rw [hfull, ← List.append_assoc, hsplit]

theorem lastLine_unbroken (text : List Char) : ∀ c ∈ lastLine text, isNewline c = false := by
  intro c hc
  have h := List.mem_takeWhile_imp (List.mem_reverse.mp hc)
  simpa using h

end names

section appending

theorem written_cons (seen : List (List Char)) (e : Entry) (entries : List Entry) :
    written seen (e :: entries) =
      if e.name = [] ∨ e.name ∈ seen then written seen entries else e :: written (e.name :: seen) entries := by
  have hknown : (e.name = [] ∨ seen.contains e.name = true) ↔ (e.name = [] ∨ e.name ∈ seen) :=
    or_congr_right List.contains_iff_mem
  rw [written, if_congr hknown rfl rfl]

theorem mem_written {seen : List (List Char)} (h : e ∈ written seen entries) :
    e ∈ entries ∧ e.name ≠ [] ∧ e.name ∉ seen := by
  induction entries generalizing seen with
  | nil => cases h
  | cons first entries ih =>
      rw [written_cons] at h
      split at h
      · obtain ⟨hmem, hspec⟩ := ih h
        exact ⟨List.mem_cons_of_mem _ hmem, hspec⟩
      next hnew =>
        rcases List.mem_cons.mp h with rfl | h
        · exact ⟨List.mem_cons_self, not_or.mp hnew⟩
        · obtain ⟨hmem, hne, hseen⟩ := ih h
          exact ⟨List.mem_cons_of_mem _ hmem, hne, fun hin => hseen (List.mem_cons_of_mem _ hin)⟩

/-- Every domain is listed before or written. -/
theorem written_complete (seen : List (List Char)) (he : e ∈ entries) (hne : e.name ≠ []) :
    e.name ∈ seen ∨ ∃ e' ∈ written seen entries, e'.name = e.name := by
  induction entries generalizing seen with
  | nil => cases he
  | cons first entries ih =>
      rw [written_cons]
      rcases List.mem_cons.mp he with rfl | he
      · split
        next hold => exact Or.inl (hold.resolve_left hne)
        next => exact Or.inr ⟨e, List.mem_cons_self, rfl⟩
      · split
        next => exact ih seen he
        next =>
          rcases ih (first.name :: seen) he with h | ⟨e', he', hname⟩
          · rcases List.mem_cons.mp h with h | h
            · exact Or.inr ⟨first, List.mem_cons_self, h.symm⟩
            · exact Or.inl h
          · exact Or.inr ⟨e', List.mem_cons_of_mem _ he', hname⟩

theorem written_eq_nil {seen : List (List Char)} (h : ∀ e ∈ entries, e.name = [] ∨ e.name ∈ seen) :
    written seen entries = [] := by
  apply List.eq_nil_iff_forall_not_mem.mpr
  intro e he
  obtain ⟨hmem, hne, hseen⟩ := mem_written he
  exact (h e hmem).elim hne hseen

theorem names_commented (h : ∀ c ∈ line, isNewline c = false) (e : Entry) :
    names (line ++ ("  #".toList ++ e.comment)) = [token line].filter (· ≠ []) ++ spilled e := by
  have hplain (rest : List Char) (hrest : ∀ c ∈ rest, isNewline c = false) :
      ∀ c ∈ line ++ ("  #".toList ++ rest), isNewline c = false := by
    intro c hc
    rcases List.mem_append.mp hc with hc | hc
    · exact h c hc
    · rcases List.mem_append.mp hc with hc | hc
      · exact forall_mem_of_all (by decide) c hc
      · exact hrest c hc
  have hfront : ∀ c ∈ e.comment.takeWhile (fun c => !isNewline c), isNewline c = false := by
    intro c hc
    have := List.mem_takeWhile_imp hc
    simpa using this
  have hsplit := List.takeWhile_append_dropWhile (p := fun c => !isNewline c) (l := e.comment)
  cases hdrop : e.comment.dropWhile (fun c => !isNewline c) with
  | nil =>
      rw [hdrop, List.append_nil] at hsplit
      rw [hsplit] at hfront
      rw [names_line (hplain _ hfront), token_commented, spilled, hdrop, List.drop_nil, names_nil,
        List.append_nil]
  | cons c rest =>
      have hc : isNewline c = true := by
        have hhead := List.head?_dropWhile_not (fun c => !isNewline c) e.comment
        rw [hdrop] at hhead
        simpa using hhead
      rw [hdrop] at hsplit
      have hwhole : line ++ ("  #".toList ++ e.comment) =
          (line ++ ("  #".toList ++ e.comment.takeWhile (fun c => !isNewline c))) ++ c :: rest := by
        rw [List.append_assoc, List.append_assoc, hsplit]
      rw [hwhole, names_append_newline hc, names_line (hplain _ hfront), token_commented, spilled, hdrop]
      rfl

/-- A new line lists its domain, with what stands in front of it, and what its comment spills. -/
theorem names_entry (line : List Char) (hline : ∀ c ∈ line, isNewline c = false)
    (hname : ∀ c ∈ e.name, isNewline c = false) (more : List Char) : names (line ++ (e.line ++ more)) =
      [token (line ++ e.name)].filter (· ≠ []) ++ spilled e ++ names more := by
  have hwhole : line ++ (e.line ++ more) = ((line ++ e.name) ++ ("  #".toList ++ e.comment)) ++ '\n' :: more := by
    simp [Entry.line]
  have hplain : ∀ c ∈ line ++ e.name, isNewline c = false := by
    intro c hc
    rcases List.mem_append.mp hc with hc | hc
    · exact hline c hc
    · exact hname c hc
  rw [hwhole, names_append_newline (by decide), names_commented hplain]

theorem mem_names_entries (h : ∀ e ∈ entries, e.name ≠ [] ∧ '#' ∉ e.name ∧ ∀ c ∈ e.name, isNewline c = false) :
    n ∈ names (entries.flatMap Entry.line) ↔ ∃ e ∈ entries, n = e.name ∨ n ∈ spilled e := by
  induction entries with
  | nil => simp
  | cons e entries ih =>
      obtain ⟨hne, hhash, hname⟩ := h e List.mem_cons_self
      have hentry := names_entry [] (fun _ hc => absurd hc List.not_mem_nil) hname (entries.flatMap Entry.line)
      rw [List.nil_append, List.nil_append, token_name e hhash, List.filter_cons_of_pos (p := fun l => decide (l ≠ [])) (decide_eq_true hne)] at hentry
      rw [List.flatMap_cons, hentry, List.mem_append, ih fun e he => h e (List.mem_cons_of_mem _ he)]
      simp only [List.filter_nil, List.mem_append, List.mem_cons, List.not_mem_nil, or_false, exists_eq_or_imp]

variable {first : Entry} {rest : List Entry}

/-- What the file lists after an append of clean domains. -/
theorem mem_names_append (hnew : written (existing text) entries = first :: rest)
    (hclean : ∀ e ∈ written (existing text) entries, '#' ∉ e.name ∧ ∀ c ∈ e.name, isNewline c = false) :
    n ∈ names (appendDenylist text entries) ↔ n ∈ names (fullLines text) ∨
      (n = token (lastLine text ++ first.name) ∧ n ≠ []) ∨ n ∈ spilled first ∨
        ∃ e ∈ rest, n = e.name ∨ n ∈ spilled e := by
  have hfirst : first ∈ written (existing text) entries := hnew ▸ List.mem_cons_self
  have hrest : ∀ e ∈ rest, e.name ≠ [] ∧ '#' ∉ e.name ∧ ∀ c ∈ e.name, isNewline c = false := by
    intro e he
    have hmem : e ∈ written (existing text) entries := hnew ▸ List.mem_cons_of_mem _ he
    exact ⟨(mem_written hmem).2.1, hclean e hmem⟩
  rw [appendDenylist, names_append, hnew, List.flatMap_cons,
    names_entry _ (lastLine_unbroken text) (hclean first hfirst).2, List.mem_append, List.mem_append, List.mem_append,
    mem_names_entries hrest, List.mem_filter, List.mem_singleton, decide_eq_true_iff, or_assoc]

theorem wanted_of_mem (h : e ∈ written (existing text) entries) : Wanted text entries e.name := by
  obtain ⟨hmem, hne, _⟩ := mem_written h
  exact Or.inr ⟨e, hmem, hne, rfl⟩

theorem names_split (text : List Char) : n ∈ names text ↔ n ∈ names (fullLines text) ∨
    (n = token (lastLine text) ∧ n ≠ []) := by
  have hsplit := names_append text []
  rw [List.append_nil, List.append_nil, names_line (lastLine_unbroken text)] at hsplit
  rw [hsplit, List.mem_append, List.mem_filter, List.mem_singleton, decide_eq_true_iff]

/-- Behind blanks the first new line stands as it would at the start of a line. -/
theorem joined_of_blank (hnew : written (existing text) entries = first :: rest) (hhash : '#' ∉ first.name)
    (hblank : ∀ c ∈ lastLine text, isSpace c = true) : Joined text entries first rest := by
  have hjoin : token (lastLine text ++ first.name) = first.name := by
    have hplain : '#' ∉ lastLine text ++ first.name := by
      intro hin
      rcases List.mem_append.mp hin with hin | hin
      · exact absurd (hblank '#' hin) (by decide)
      · exact hhash hin
    have hself := token_name first hhash
    rw [token, takeWhile_no_hash hhash] at hself
    rw [token, takeWhile_no_hash hplain, strip_blank_append hblank, hself]
  refine ⟨Or.inr ?_, ?_⟩
  · rw [hjoin]
    exact wanted_of_mem (hnew ▸ List.mem_cons_self)
  · intro n hn hne
    rw [token_blank hblank] at hn
    rcases List.mem_cons.mp hn with rfl | hn
    · exact Or.inr (Or.inl hjoin.symm)
    · exact absurd (List.mem_singleton.mp hn) hne

/-- The names of the file after the append, in terms of what is written. -/
theorem lists_iff : (∀ n, n ∈ names (appendDenylist text entries) ↔ Wanted text entries n) ↔ Fits text entries := by
  have hold : ∀ e ∈ entries, e.name ≠ [] → e.name ∈ names text ∨
      ∃ e' ∈ written (existing text) entries, e'.name = e.name := by
    intro e he hne
    have h := written_complete (existing text) he hne
    rwa [existing_eq] at h ⊢
  constructor
  · intro h
    have hclean : ∀ e ∈ written (existing text) entries, '#' ∉ e.name ∧ ∀ c ∈ e.name, isNewline c = false :=
      fun e he => (mem_names ((h e.name).mpr (wanted_of_mem he))).2
    have hformula {first : Entry} {rest : List Entry} (hnew : written (existing text) entries = first :: rest)
        (n : List Char) := (mem_names_append (n := n) hnew hclean).symm.trans (h n)
    refine ⟨hclean, ?_, ?_⟩
    · intro e he n hn
      cases hnew : written (existing text) entries with
      | nil => rw [hnew] at he; cases he
      | cons first rest =>
          rw [hnew] at he
          refine (hformula hnew n).mp (Or.inr (Or.inr ?_))
          rcases List.mem_cons.mp he with rfl | he
          · exact Or.inl hn
          · exact Or.inr ⟨e, he, Or.inr hn⟩
    · intro first rest hnew
      refine Or.inr ⟨?_, ?_⟩
      · by_cases hnil : token (lastLine text ++ first.name) = []
        · exact Or.inl hnil
        · exact Or.inr ((hformula hnew _).mp (Or.inr (Or.inl ⟨rfl, hnil⟩)))
      · intro n hn hne
        have hwanted : Wanted text entries n := by
          rcases List.mem_cons.mp hn with rfl | hn
          · exact wanted_of_mem (hnew ▸ List.mem_cons_self)
          · exact Or.inl ((names_split text).mpr (Or.inr ⟨List.mem_singleton.mp hn, hne⟩))
        exact ((hformula hnew n).mpr hwanted).imp_right (Or.imp_left And.left)
  · intro h n
    cases hnew : written (existing text) entries with
    | nil =>
        have hsame : appendDenylist text entries = text := by
          rw [appendDenylist, hnew, List.flatMap_nil, List.append_nil]
        rw [hsame]
        refine ⟨Or.inl, ?_⟩
        rintro (hn | ⟨e, he, hne, rfl⟩)
        · exact hn
        · refine (hold e he hne).resolve_right ?_
          rintro ⟨e', he', _⟩
          rw [hnew] at he'
          cases he'
    | cons first rest =>
        have hfirst : first ∈ written (existing text) entries := hnew ▸ List.mem_cons_self
        have hjoined : Joined text entries first rest :=
          (h.place first rest hnew).elim (joined_of_blank hnew (h.clean first hfirst).1) id
        rw [mem_names_append hnew h.clean]
        constructor
        · rintro (hn | ⟨rfl, hne⟩ | hn | ⟨e, he, hn⟩)
          · exact Or.inl ((names_split text).mpr (Or.inl hn))
          · exact hjoined.joined.resolve_left hne
          · exact h.spilled_wanted first hfirst n hn
          · have hmem : e ∈ written (existing text) entries := hnew ▸ List.mem_cons_of_mem _ he
            rcases hn with rfl | hn
            · exact wanted_of_mem hmem
            · exact h.spilled_wanted e hmem n hn
        · have hback {n : List Char} (hn : n ∈ [first.name, token (lastLine text)]) (hne : n ≠ []) :=
            (hjoined.elsewhere n hn hne).imp_right (Or.imp_left fun heq => And.intro heq hne)
          have hlisted {n : List Char} (hn : n ∈ names text) := ((names_split text).mp hn).elim Or.inl
            fun ⟨heq, hne⟩ => hback (List.mem_cons_of_mem _ (List.mem_singleton.mpr heq)) hne
          rintro (hn | ⟨e, he, hne, rfl⟩)
          · exact hlisted hn
          · rcases hold e he hne with hn | ⟨e', he', hname⟩
            · exact hlisted hn
            · rw [hnew] at he'
              rcases List.mem_cons.mp he' with rfl | he'
              · exact hback (hname ▸ List.mem_cons_self) hne
              · exact Or.inr (Or.inr (Or.inr ⟨e', he', Or.inl hname.symm⟩))

end appending

end Blockchecks.DenylistAppend
