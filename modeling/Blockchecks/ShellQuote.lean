import Blockchecks.DoubleQuotes
import Blockchecks.KeeneticConf

namespace Blockchecks.ShellQuote

open StrategyText DoubleQuotes KeeneticConf

/-- str.replace of a single character. -/
def replaceChar (old : Char) (new text : List Char) : List Char :=
  text.flatMap (fun c => if c = old then new else [c])

def quoteMultiline (value : String) : String :=
  String.ofList ('"' :: replaceChar '"' ['\\', '"'] (replaceChar '\\' ['\\', '\\'] value.toList) ++ ['"'])

/-- The value that a shell assigns. What it expands is left to expand. -/
def assigned (expand : Char → List Char → Option (List Char × Nat)) (word : String) : Option String :=
  (read expand word.toList).map String.ofList

/-- The variables of the conf that are quoted, with the texts that were built for them. -/
def keeneticVariables (ispInterface : String) (args : KeeneticArgs) : List (String × String) :=
  [("ISP_INTERFACE", ispInterface), ("NFQWS_BASE_ARGS", "\n ".intercalate args.base),
    ("NFQWS_ARGS", "\n ".intercalate args.tcp), ("NFQWS_ARGS_QUIC", "\n ".intercalate args.quic),
    ("NFQWS_ARGS_UDP", "\n ".intercalate args.udp)]

/-- The words behind the names of the variables. -/
def keeneticAssignments (ispInterface : String) (args : KeeneticArgs) : List (String × String) :=
  (keeneticVariables ispInterface args).map (fun entry => (entry.1, quoteMultiline entry.2))

/-- An expansion where no variable is set. -/
def unsetVariables (_ : Char) (rest : List Char) : Option (List Char × Nat) :=
  some ([], (rest.takeWhile isWordChar).length)

theorem replaceChars (text : List Char) :
    replaceChar '"' ['\\', '"'] (replaceChar '\\' ['\\', '\\'] text) = escape text := by
  rw [replaceChar, replaceChar, List.flatMap_assoc, escape]
  apply congrArg (List.flatMap · text)
  funext c
  rw [escapeChar]
  by_cases hback : c = '\\'
  · rw [if_pos hback, if_pos hback]
    rfl
  · rw [if_neg hback, if_neg hback, List.flatMap_singleton]

theorem assigned_quoteMultiline (expand : Char → List Char → Option (List Char × Nat)) (value : String) :
    assigned expand (quoteMultiline value) = some value ↔
      read expand ('"' :: escape value.toList ++ ['"']) = some value.toList := by
  rw [assigned, quoteMultiline, replaceChars, String.toList_ofList]
  constructor
  · intro h
    obtain ⟨text, htext, rfl⟩ := Option.map_eq_some_iff.mp h
    rw [htext, String.toList_ofList]
  · intro h
    rw [h, Option.map_some, String.ofList_toList]

theorem value_reproduced_iff (value : String) :
    (∀ expand, assigned expand (quoteMultiline value) = some value) ↔ unexpanded value.toList = true := by
  simp only [assigned_quoteMultiline, read_escape_iff]

theorem unexpanded_argument_text (lines : List String) :
    unexpanded ("\n ".intercalate lines).toList = true ↔ ∀ line ∈ lines, unexpanded line.toList = true := by
  rw [String.toList_intercalate]
  have hsep : "\n ".toList = ['\n', ' '] := rfl
  rw [hsep, unexpanded_join, List.all_map, List.all_eq_true]
  rfl

theorem variables_unexpanded_iff (ispInterface : String) (args : KeeneticArgs) :
    (∀ entry ∈ keeneticVariables ispInterface args, unexpanded entry.2.toList = true) ↔
      ∀ line ∈ ispInterface :: args.lines, unexpanded line.toList = true := by
  simp only [keeneticVariables, KeeneticArgs.lines, List.forall_mem_cons, List.forall_mem_append,
    unexpanded_argument_text, List.not_mem_nil, false_imp_iff, implies_true, and_true, and_assoc]

/-- The quoting leaves dollars and backquotes to the shell. -/
theorem quote_multiline_reproduces_iff (value : String) (confText : List Char → Option (List Char))
    (manifest : List (String × String)) (options : KeeneticOptions) (tcp udp quic : List String)
    (ispInterface : String) :
    ((∀ expand, assigned expand (quoteMultiline value) = some value) ↔ unexpanded value.toList = true) ∧
    let args := buildKeeneticConf confText manifest options tcp udp quic
    (∀ expand, (keeneticAssignments ispInterface args).map (fun a => (a.1, assigned expand a.2)) =
        (keeneticVariables ispInterface args).map (fun a => (a.1, some a.2))) ↔
      ∀ line ∈ ispInterface :: args.lines, unexpanded line.toList = true := by
  refine ⟨value_reproduced_iff value, ?_⟩
  intro args
  rw [← variables_unexpanded_iff]
  simp only [← value_reproduced_iff, keeneticAssignments, List.map_map, List.map_inj_left, Function.comp_apply,
    Prod.mk.injEq, true_and]
  exact ⟨fun h a ha expand => h expand a ha, fun h expand a ha => h a ha expand⟩

/-- An interface name that is read as a variable. -/
theorem dollar_expanded : ¬ ∀ expand value, assigned expand (quoteMultiline value) = some value := by
  intro h
  exact absurd (h unsetVariables "$ISP") (by decide)

end Blockchecks.ShellQuote
