import Blockchecks.StrategyText

namespace Blockchecks.LuaConf

open StrategyText

/-- Split at every occurrence of a separator; the counter skips the rest of one. -/
def splitFrom (sep : List Char) : Nat → List Char → List Char → List (List Char)
  | _, part, [] => [part.reverse]
  | skip + 1, part, _ :: rest => splitFrom sep skip part rest
  | 0, part, c :: rest =>
      if sep.isPrefixOf (c :: rest) then part.reverse :: splitFrom sep (sep.length - 1) [] rest
      else splitFrom sep 0 (c :: part) rest

def split (text : List Char) (sep : String) : List (List Char) := splitFrom sep.toList 0 [] text

def splitCliArgs (rawLine : List Char) : List (List Char) :=
  (split rawLine " --").filterMap (fun arg =>
    let arg := strip arg
    if arg = [] then none
    else if startsWith arg "--" then some arg
    else some ("--".toList ++ arg))

def escapeConfLt (cli : List Char) : List Char :=
  cli.flatMap (fun c => if c = '<' then ['\\', '<'] else [c])

def sanitizeArgForConf (cli : List Char) : List Char := escapeConfLt cli

def appendStrategyDesyncs (strategy : String) (strategyN : Nat) : List String :=
  (split strategy.toList "\n").flatMap (fun rawLine =>
    let rawLine := strip rawLine
    if rawLine = [] then []
    else if startsWith rawLine "--" then
      (splitCliArgs rawLine).map (fun cli => String.ofList (sanitizeArgForConf cli))
    else
      let desync := if contains rawLine ":strategy=" then rawLine
        else rawLine ++ (":strategy=" ++ toString strategyN).toList
      [String.ofList ("--lua-desync=".toList ++ escapeConfLt desync)])

/-- The strategy part of build_bridge_conf, one block for each strategy, numbered
from 1. -/
def strategyBlocks (applyBlobRenames : String → String) (strategies : List String) :
    List (List String) :=
  (strategies.zipIdx 1).map (fun p => appendStrategyDesyncs (applyBlobRenames p.1) p.2)

theorem strategyBlocks_getElem? (applyBlobRenames : String → String) (strategies : List String)
    (i : Nat) : (strategyBlocks applyBlobRenames strategies)[i]? =
      (strategies[i]?).map (fun text => appendStrategyDesyncs (applyBlobRenames text) (i + 1)) := by
  simp [strategyBlocks, Nat.add_comm, Function.comp_def]

example : strategyBlocks id ["fake:ttl=3", "multisplit:pos=1\n--payload=tls --out-range=s1<d1"] =
    [["--lua-desync=fake:ttl=3:strategy=1"],
      ["--lua-desync=multisplit:pos=1:strategy=2", "--payload=tls", "--out-range=s1\\<d1"]] := by
  decide +kernel

end Blockchecks.LuaConf
