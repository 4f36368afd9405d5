import Blockchecks.BlobSound

namespace Blockchecks.BlobConf

open StrategyText LuaConf NfqwsConfig OrderedDict BlobWords ConfRewrite BlobRename BlobDeclare BlobOwn BlobSound

section header

theorem luaInit_plain (scripts : List String) : ∀ line ∈ luaInitLines scripts,
    startsWith line.toList "--blob=" = false := by
  intro line hline
  obtain ⟨script, -, rfl⟩ := List.mem_map.mp hline
  rw [String.toList_append]
  rfl

theorem filter_plain (queue : Nat) {filter : String} (hfilter : startsWith filter.toList "--blob=" = false)
    (l7 payload : String) : ∀ line ∈ filterLines queue filter l7 payload, startsWith line.toList "--blob=" = false := by
  have hqueue : startsWith ("--qnum=" ++ toString queue).toList "--blob=" = false := by
    rw [String.toList_append]
    rfl
  have hl7 : startsWith ("--filter-l7=" ++ l7).toList "--blob=" = false := by
    rw [String.toList_append]
    rfl
  have hpayload : startsWith ("--payload=" ++ payload).toList "--blob=" = false := by
    rw [String.toList_append]
    rfl
  simp only [filterLines, List.forall_mem_cons, hqueue, hfilter, hl7, hpayload, List.not_mem_nil, false_imp_iff,
    implies_true, and_true, true_and]
  decide

theorem buildFilter_plain (env : Env) (protocol : String) : ∀ line ∈ buildFilterLines env protocol,
    startsWith line.toList "--blob=" = false := by
  rw [buildFilterLines]
  split
  next => exact filter_plain _ (by decide) _ _
  split
  next => exact filter_plain _ (by decide) _ _
  split
  next => exact filter_plain _ (by decide) _ _
  split
  next => exact filter_plain _ (by decide) _ _
  next => exact filter_plain _ (by decide) _ _

theorem header_plain (env : Env) (ipcDir : String) (staged : List String) (protocol : String) :
    ∀ line ∈ bridgeHeader env ipcDir staged protocol, startsWith line.toList "--blob=" = false := by
  have hwritable : startsWith ("--writable=" ++ ipcDir).toList "--blob=" = false := by
    rw [String.toList_append]
    rfl
  simp only [bridgeHeader, List.forall_mem_append, List.forall_mem_singleton]
  refine ⟨⟨⟨⟨hwritable, luaInit_plain _⟩, luaInit_plain _⟩, buildFilter_plain env protocol⟩, by decide⟩

end header

theorem built_bridge (env : Env) (strategies : List String) (ipcDir : String) (staged : List String)
    (protocol : String) :
    Built env false strategies (bridgeRenames env (bridgeHeader env ipcDir staged protocol) strategies).1
      (strategyBlocks (applyBlobRenames ·
        (bridgeRenames env (bridgeHeader env ipcDir staged protocol) strategies).2) strategies).flatten
      (bridgeRenames env (bridgeHeader env ipcDir staged protocol) strategies).2 where
  appended := appended (header_plain env ipcDir staged protocol) blobNames_word
  own := by
    intro ident hident
    generalize (bridgeRenames env (bridgeHeader env ipcDir staged protocol) strategies).2 = renames
    have hargs : (strategies.zipIdx 1).flatMap (fun p => cliArgs false (applyBlobRenames p.1 renames).toList) =
        strategies.flatMap (fun text => cliArgs false (applyBlobRenames text renames).toList) := by
      have hmap := List.flatMap_map Prod.fst (fun text => cliArgs false (applyBlobRenames text renames).toList)
        (strategies.zipIdx 1)
      rw [← hmap, List.zipIdx_map_fst]
    rw [strategyBlocks, ← List.flatMap_def,
      exists_flatMap (fun p _ => block_declared_iff hident (applyBlobRenames p.1 renames) p.2), hargs]
    simp only [List.mem_flatMap]
    constructor
    · rintro ⟨arg, ⟨text, htext, harg⟩, h⟩
      exact ⟨text, htext, arg, harg, h⟩
    · rintro ⟨text, htext, arg, harg, h⟩
      exact ⟨arg, ⟨text, htext, harg⟩, h⟩

theorem built_single (env : Env) (all : Bool) {given : List String}
    (hgiven : ∀ line ∈ given, startsWith line.toList "--blob=" = false) (strategy : String) :
    Built env all [strategy] (addBlobsFromStrategy env given strategy).1
      (ownLines all (addBlobsFromStrategy env given strategy).2)
      (appendBlobCliLines env given (extractBlobNames strategy)).2 := by
  have hnames : blobNames [strategy] = extractBlobNames strategy := List.flatMap_singleton _ _
  have happended := @appended env (blobNames [strategy]) given hgiven blobNames_word
  rw [hnames] at happended
  rw [addBlobsFromStrategy]
  generalize appendBlobCliLines env given (extractBlobNames strategy) = state at happended
  refine ⟨?_, fun ident hident => ?_⟩
  · rw [hnames]
    exact happended
  · rw [own_declared_iff hident]
    exact ⟨fun h => ⟨strategy, List.mem_singleton_self _, h⟩, fun ⟨text, htext, h⟩ => List.mem_singleton.mp htext ▸ h⟩

section sample

/-- Two files whose names differ by the letter that makes an identifier. -/
def sample : Env where
  nfqueueTcp := 200
  nfqueueUdp := 201
  luaInitScripts := []
  blobPath := fun name => if name = "1x" then some "/1x.bin" else if name = "b1x" then some "/b1x.bin" else none

theorem sample_clean : Clean sample false ["fake:blob=1x"] := by
  have hnames : blobNames ["fake:blob=1x"] = ["1x"] := by decide +kernel
  have hargs : cliArgs false "fake:blob=1x".toList = [] := by decide +kernel
  have hread : metReference false "1x" "fake:blob=1x" = false := by decide +kernel
  have hone {n : String} (h : n ∈ blobNames ["fake:blob=1x"]) : n = "1x" := by
    rw [hnames] at h
    exact List.mem_singleton.mp h
  constructor
  · exact fun n hn m hm hne => absurd ((hone hn).trans (hone hm).symm) hne
  · exact fun n hn m hm hne => absurd ((hone hn).trans (hone hm).symm) hne
  · intro n hn _ _ text htext
    rw [hone hn, List.mem_singleton.mp htext]
    exact hread
  · intro n _ _ text htext arg harg
    rw [List.mem_singleton.mp htext, hargs] at harg
    cases harg

end sample

end Blockchecks.BlobConf
