import Blockchecks.TextFile

namespace Blockchecks.UserMatrix

open StrategyText LuaConf TextFile

abbrev Text := List Char

/-- Letters are compared without case, where an i also stands for the two i of
Turkish. -/
def foldLetter (c : Char) : Char := if c.toNat = 0x130 ∨ c.toNat = 0x131 then 'i' else c.toLower

/-- A section word at the head of a text, in lower case. -/
def sectionWord (text : Text) (word : String) : Option Text :=
  let found := text.take word.toList.length
  if found.map foldLetter = word.toList ∧
      ((text.drop word.toList.length).head?.any isWordChar) = false then
    some (found.map Char.toLower)
  else none

def parseMatrixSection : Text → Option Text
  | '#' :: text => match text.dropWhile isSpace with
    | '-' :: text =>
        ["tcp", "udp", "quic"].findSome? (sectionWord ((text.dropWhile (· = '-')).dropWhile isSpace))
    | _ => none
  | _ => none

def lane (protocol : String) : Text :=
  if protocol = "udp_voice" ∨ protocol = "udp_game" then "udp".toList
  else if protocol = "quic" then "quic".toList else "tcp".toList

def udpSkipTcpCli : List String := ["--filter-tcp", "--qnum=200"]

def udpSkipOnTcp : List String :=
  ["--filter-udp", "--qnum=201", "filter-udp", "blob=discord_udp", "discord_ip_discovery"]

def tcpOnlyFooling : List String := ["tcp_ack", "tcp_ts_up", "tls_client_hello", "--filter-l7=tls"]

def keepMatrixLine (protocol : String) (strategy : Text) (current : Option Text) : Bool :=
  let low := strategy.map Char.toLower
  match current with
  | some name => decide (name = lane protocol)
  | none =>
      if lane protocol ≠ "udp".toList then !udpSkipOnTcp.any (contains low)
      else !(udpSkipTcpCli ++ tcpOnlyFooling).any (contains low)

structure Item where
  label : Text
  strategy : Text
  protocol : String

/-- A matrix line after its blanks are stripped. -/
inductive Line where
  | skipped
  | heading (name : Text)
  | strategy (text : Text)

def readLine (raw : Text) : Line :=
  let line := strip raw
  if line = [] ∨ line = "---".toList then .skipped
  else match parseMatrixSection line with
    | some name => .heading name
    | none => if startsWith line "#" then .skipped else .strategy (unescapeNewlines line)

section label

-- the parameter is cmd_label
variable (cmdLabel : Text → Text → Text)

def cmdHumanLabel (cmd : Text) : Text :=
  let pre := (cmd.takeWhile (· ≠ '\n')).map (fun c => if c = ' ' ∨ c = ':' then '_' else c)
  cmdLabel (pre.take 40) cmd

def iterUserMatrixItems (protocol scanLevel : String) (current : Option Text) : List Text → List Item
  | [] => []
  | raw :: lines => match readLine raw with
    | .skipped => iterUserMatrixItems protocol scanLevel current lines
    | .heading name => iterUserMatrixItems protocol scanLevel (some name) lines
    | .strategy strategy =>
        if keepMatrixLine protocol strategy current then
          ⟨cmdHumanLabel cmdLabel strategy, strategy, protocol⟩ ::
            (if scanLevel = "single" then []
            else iterUserMatrixItems protocol scanLevel current lines)
        else iterUserMatrixItems protocol scanLevel current lines

/-- UserMatrixGenerator.generate on the text of the matrix file. -/
def generate (protocol scanLevel : String) (maxCount : Nat) (matrix : Text) : List Item :=
  (iterUserMatrixItems cmdLabel protocol scanLevel none
    (splitlines (universalNewlines matrix))).take maxCount

/-- The section that holds after some lines. -/
def currentAfter (current : Option Text) : List Text → Option Text
  | [] => current
  | raw :: lines => match readLine raw with
    | .heading name => currentAfter (some name) lines
    | _ => currentAfter current lines

variable {cmdLabel : Text → Text → Text} {protocol scanLevel : String} {current : Option Text}
  {lines : List Text} {raw s : Text}

theorem iter_append (hlevel : scanLevel ≠ "single") (a b : List Text) :
    iterUserMatrixItems cmdLabel protocol scanLevel current (a ++ b) =
      iterUserMatrixItems cmdLabel protocol scanLevel current a ++
        iterUserMatrixItems cmdLabel protocol scanLevel (currentAfter current a) b := by
  induction a generalizing current with
  | nil => rfl
  | cons raw a ih =>
      rw [List.cons_append, iterUserMatrixItems, iterUserMatrixItems, currentAfter]
      cases readLine raw with
      | skipped => exact ih
      | heading name => exact ih
      | strategy text =>
          simp only [if_neg hlevel]
          split
          · rw [ih, List.cons_append]
          · exact ih

theorem length_iter_le (protocol scanLevel : String) (current : Option Text) (lines : List Text) :
    (iterUserMatrixItems cmdLabel protocol scanLevel current lines).length ≤ lines.length := by
  induction lines generalizing current with
  | nil => exact Nat.le_refl 0
  | cons raw lines ih =>
      rw [iterUserMatrixItems, List.length_cons]
      cases readLine raw with
      | skipped => exact Nat.le_succ_of_le (ih _)
      | heading name => exact Nat.le_succ_of_le (ih _)
      | strategy text =>
          simp only
          split
          · split
            · exact Nat.succ_le_succ (Nat.zero_le _)
            · exact Nat.succ_le_succ (ih _)
          · exact Nat.le_succ_of_le (ih _)

/-- A strategy is yielded exactly by a line that is kept in its section. -/
theorem mem_iter_iff (hlevel : scanLevel ≠ "single") :
    (∃ item ∈ iterUserMatrixItems cmdLabel protocol scanLevel current lines, item.strategy = s) ↔
      ∃ before raw after, lines = before ++ raw :: after ∧ readLine raw = .strategy s ∧
        keepMatrixLine protocol s (currentAfter current before) = true := by
  induction lines generalizing current with
  | nil =>
      refine iff_of_false ?_ ?_
      · rintro ⟨item, hitem, _⟩
        exact absurd hitem List.not_mem_nil
      · rintro ⟨before, raw, after, h, _⟩
        exact absurd h.symm (List.append_ne_nil_of_right_ne_nil before (List.cons_ne_nil raw after))
  | cons first lines ih =>
      -- a line stands first or among the rest
      have hsplit : (∃ before raw after, first :: lines = before ++ raw :: after ∧
            readLine raw = .strategy s ∧
            keepMatrixLine protocol s (currentAfter current before) = true) ↔
          (readLine first = .strategy s ∧ keepMatrixLine protocol s current = true) ∨
          ∃ before raw after, lines = before ++ raw :: after ∧ readLine raw = .strategy s ∧
            keepMatrixLine protocol s (currentAfter (currentAfter current [first]) before) = true := by
        have hafter (before : List Text) : currentAfter (currentAfter current [first]) before =
            currentAfter current (first :: before) := by
          simp only [currentAfter]
          cases readLine first <;> rfl
        simp only [hafter]
        constructor
        · rintro ⟨before, raw, after, h, hread, hkeep⟩
          cases before with
          | nil =>
              obtain ⟨rfl, _⟩ := List.cons.inj h
              exact Or.inl ⟨hread, hkeep⟩
          | cons b before =>
              obtain ⟨rfl, hlines⟩ := List.cons.inj h
              exact Or.inr ⟨before, raw, after, hlines, hread, hkeep⟩
        · rintro (⟨hread, hkeep⟩ | ⟨before, raw, after, rfl, hread, hkeep⟩)
          · exact ⟨[], first, lines, rfl, hread, hkeep⟩
          · exact ⟨first :: before, raw, after, rfl, hread, hkeep⟩
      rw [hsplit, ← ih, iterUserMatrixItems, currentAfter]
      cases hread : readLine first with
      | skipped => exact (or_iff_right (fun h => nomatch h.1)).symm
      | heading name => exact (or_iff_right (fun h => nomatch h.1)).symm
      | strategy text =>
          simp only [if_neg hlevel, currentAfter, Line.strategy.injEq]
          split
          next hkeep =>
            simp only [List.mem_cons, exists_eq_or_imp]
            refine or_congr_left ⟨fun h => ⟨h, h ▸ hkeep⟩, And.left⟩
          next hkeep =>
            refine (or_iff_right ?_).symm
            rintro ⟨rfl, h⟩
            exact hkeep h

end label

end Blockchecks.UserMatrix
