import Psprism.Dispatch
import Psprism.Lib.BinarySearch
import Psprism.Lib.Transducer
import Psprism.RunnerDecline

/-!
# The routes of the dispatcher (`src/emitter/project_output/dispatch.inc`)

Behind the hooks and the imports, `dispatch_block` looks for the runner of an address in three places: the slot of
`dispatch_cache` for the address, the route that the state's hint stands for, and the sorted table of all routes by
binary search. The cache belongs to a host thread and the hint to a guest state, so several states with hints of
their own may share the cache.

Whatever was dispatched before, the runner found is that of the last function that starts at or before the address
(`dispatch_selects`).
-/

namespace Psprism
open BinarySearch Transducer

/-- An entry of `function_routes`. -/
structure FunctionRoute (ρ : Type) where
  start : Word
  runner : ρ

/-- `function_routes`, written from a map by start. -/
structure FunctionRoutes (ρ : Type) where
  routes : List (FunctionRoute ρ)
  sorted : routes.Pairwise fun a b => a.start.toNat < b.start.toNat

/-- `dispatch_cache` and the `dispatch_route_hint` of each guest state. A slot without a runner fits no address. -/
structure RouteState (ι ρ : Type) where
  cache : BitVec 10 → Option (Word × ρ) := fun _ => none
  hints : ι → Word

/-- `cache_idx`. -/
def cacheIndex (offset : Word) : BitVec 10 := (offset >>> 2).setWidth 10

namespace FunctionRoutes
variable {ι ρ : Type} [DecidableEq ι] (T : FunctionRoutes ρ)

/-- The route of the hint, when the offset lies between its start and the next one. -/
def hinted (offset hint : Word) : Option (FunctionRoute ρ) :=
  match T.routes[hint.toNat]? with
  | none => none
  | some route =>
    if route.start ≤ offset ∧ (T.routes[hint.toNat + 1]?).all (offset < ·.start) then some route else none

/-- The runner that `dispatch_block` calls for an address, if any, and what it leaves for the next ones. -/
def select (memoryBase : Word) (s : RouteState ι ρ) (i : ι) (currentPc : Word) : Option ρ × RouteState ι ρ :=
  let offset := currentPc - memoryBase
  match (s.cache (cacheIndex offset)).filter fun entry => entry.1 = currentPc with
  | some entry => (some entry.2, s)
  | none =>
    match T.hinted offset (s.hints i) with
    | some route =>
      (some route.runner,
        { s with cache := Function.update s.cache (cacheIndex offset) (some (currentPc, route.runner)) })
    | none =>
      let first := search (fun route => decide (route.start ≤ offset)) T.routes
      if first = 0 then (none, s)
      else
        let hint : Word := BitVec.ofNat 32 (first - 1)
        match T.routes[hint.toNat]? with
        | none => (none, s)
        | some route =>
          (some route.runner,
            { cache := Function.update s.cache (cacheIndex offset) (some (currentPc, route.runner))
              hints := Function.update s.hints i hint })

/-- A dispatch of a guest state. -/
def dispatch (memoryBase : Word) (s : RouteState ι ρ) (call : ι × Word) : Option ρ × RouteState ι ρ :=
  T.select memoryBase s call.1 call.2

/-- A scan of the table for the last start that is not above the offset. -/
def linearScan (offset : Word) : Option (FunctionRoute ρ) :=
  lastWhere (fun route => decide (route.start ≤ offset)) T.routes

/-! ### One lookup -/

variable {T}

/-- `k` is the number of routes up to the offset. -/
theorem splits (T : FunctionRoutes ρ) (offset : Word) :
    ∃ k, Splits (fun route : FunctionRoute ρ => decide (route.start ≤ offset)) T.routes k := by
  refine ⟨_, Splits.of_pairwise (T.sorted.imp fun {a b} hlt hb => ?_)⟩
  have hle : b.start.toNat ≤ offset.toNat := BitVec.le_def.1 (of_decide_eq_true hb)
  exact decide_eq_true (BitVec.le_def.2 (by omega))

theorem length_le (T : FunctionRoutes ρ) : T.routes.length ≤ 2 ^ 32 := by
  by_contra hlong
  have hindex := index_le_key T.sorted (2 ^ 32) (by omega)
  have := T.routes[2 ^ 32].start.isLt
  omega

/-- The hint is only followed to the route that a scan finds. -/
theorem linearScan_of_hinted {offset hint : Word} {route : FunctionRoute ρ} (h : T.hinted offset hint = some route) :
    T.linearScan offset = some route := by
  obtain ⟨k, hk⟩ := T.splits offset
  unfold hinted at h
  split at h
  · cases h
  · rename_i found hfound
    split_ifs at h with hin
    obtain rfl := Option.some.inj h
    obtain ⟨hstart, hnext⟩ := hin
    obtain ⟨hlt, hget⟩ := List.getElem?_eq_some_iff.1 hfound
    have hbelow : hint.toNat < k := (hk.iff _ hlt).1 (decide_eq_true (by rw [hget]; exact hstart))
    have hlast : k ≤ hint.toNat + 1 := by
      by_contra hmore
      have hin : hint.toNat + 1 < T.routes.length := by have := hk.le; omega
      have hpass := (hk.iff _ hin).2 (by omega)
      rw [List.getElem?_eq_getElem hin, Option.all_some] at hnext
      have h₁ := BitVec.le_def.1 (of_decide_eq_true hpass)
      have h₂ := BitVec.lt_def.1 (of_decide_eq_true hnext)
      omega
    obtain rfl : k = hint.toNat + 1 := by omega
    rw [linearScan, hk.lastWhere_eq, if_neg (Nat.succ_ne_zero _), Nat.add_sub_cancel, hfound]

/-- Every runner in the cache is that of its address. -/
def Coherent (T : FunctionRoutes ρ) (memoryBase : Word) (s : RouteState ι ρ) : Prop :=
  ∀ index currentPc runner, s.cache index = some (currentPc, runner) →
    (T.linearScan (currentPc - memoryBase)).map (·.runner) = some runner

omit [DecidableEq ι] in
theorem coherent_start {memoryBase : Word} (hints : ι → Word) : T.Coherent memoryBase { hints } := by
  intro index currentPc runner hentry
  simp at hentry

omit [DecidableEq ι] in
theorem Coherent.update {memoryBase : Word} {s : RouteState ι ρ} (h : T.Coherent memoryBase s) {currentPc : Word}
    {runner : ρ} (hscan : (T.linearScan (currentPc - memoryBase)).map (·.runner) = some runner) (index : BitVec 10)
    (hints : ι → Word) :
    T.Coherent memoryBase ⟨Function.update s.cache index (some (currentPc, runner)), hints⟩ := by
  intro index' pc' runner' hentry
  dsimp only at hentry
  by_cases hindex : index' = index
  · rw [hindex, Function.update_self] at hentry
    obtain ⟨rfl, rfl⟩ := Prod.mk.inj (Option.some.inj hentry)
    exact hscan
  · rw [Function.update_of_ne hindex] at hentry
    exact h index' pc' runner' hentry

/-- One dispatch finds what the scan finds, and keeps the cache coherent. -/
theorem select_spec {memoryBase : Word} {s : RouteState ι ρ} (h : T.Coherent memoryBase s) (i : ι) (currentPc : Word) :
    (T.select memoryBase s i currentPc).1 = (T.linearScan (currentPc - memoryBase)).map (·.runner) ∧
      T.Coherent memoryBase (T.select memoryBase s i currentPc).2 := by
  unfold select
  dsimp only
  split
  · rename_i entry hentry
    obtain ⟨hcache, hpc⟩ := Option.filter_eq_some_iff.1 hentry
    have hpc : entry.1 = currentPc := of_decide_eq_true hpc
    have hscan := h _ entry.1 entry.2 hcache
    rw [hpc] at hscan
    exact ⟨hscan.symm, h⟩
  · split
    · rename_i route hroute
      have hscan := linearScan_of_hinted hroute
      refine ⟨by rw [hscan, Option.map_some], h.update ?_ _ _⟩
      rw [hscan, Option.map_some]
    · obtain ⟨k, hk⟩ := T.splits (currentPc - memoryBase)
      have hlast := hk.lastWhere_eq
      rw [search_eq hk]
      split_ifs with hzero
      · refine ⟨?_, h⟩
        rw [linearScan, hlast, if_pos hzero, Option.map_none]
      · have hlength := T.length_le
        have hle := hk.le
        have hhint : (BitVec.ofNat 32 (k - 1)).toNat = k - 1 := by
          rw [BitVec.toNat_ofNat, Nat.mod_eq_of_lt (by omega)]
        rw [hhint]
        rw [if_neg hzero, List.getElem?_eq_getElem (by omega)] at hlast
        have hscan : T.linearScan (currentPc - memoryBase) = some T.routes[k - 1] := hlast
        rw [List.getElem?_eq_getElem (by omega), hscan]
        refine ⟨rfl, h.update ?_ _ _⟩
        rw [hscan, Option.map_some]

/-! ### Sequences of dispatches -/

/-- Over any dispatches of any guest states at one base, from any hints, the runner found for an address is the one
that a scan finds: that of the route with the greatest start up to the offset, and none before the first start. -/
theorem dispatch_selects (T : FunctionRoutes ρ) (memoryBase : Word) (hints : ι → Word) (calls : List (ι × Word))
    (i : ι) (currentPc : Word) :
    let s := after (T.dispatch memoryBase) { hints } calls
    let offset := currentPc - memoryBase
    (T.select memoryBase s i currentPc).1 = (T.linearScan offset).map (·.runner) ∧
      (∀ route, T.linearScan offset = some route ↔ route ∈ T.routes ∧ route.start ≤ offset ∧
        ∀ other ∈ T.routes, other.start ≤ offset → other.start ≤ route.start) ∧
      (T.linearScan offset = none ↔ ∀ route ∈ T.routes, offset < route.start) := by
  intro s offset
  have hcoherent : T.Coherent memoryBase s :=
    after_invariant (P := T.Coherent memoryBase) (fun s call h => (select_spec h call.1 call.2).2)
      (coherent_start hints) calls
  refine ⟨(select_spec hcoherent i currentPc).1, fun route => ?_, ?_⟩
  · simp only [linearScan, BitVec.le_def]
    exact lastWhere_eq_some_iff T.sorted
  · rw [linearScan, lastWhere_eq_none_iff]
    simp only [decide_eq_false_iff_not, BitVec.not_le]

end FunctionRoutes

/-! ### The dispatcher of a project -/

namespace Project

/-- The table of an emitted project: a runner is named by the start of its function. -/
def routeTable (P : Project) (h : P.mappedFunctionStarts.Pairwise fun a b => a.toNat < b.toNat) :
    FunctionRoutes Word where
  routes := P.functionRoutes.map fun start => ⟨start, start⟩
  sorted := List.pairwise_map.2 (h.sublist List.filter_sublist)

theorem emitProject_sorted (image : LoadedImage) (codeMap : Option CodeMap) (shardSize : Word) :
    (emitProject image codeMap shardSize).mappedFunctionStarts.Pairwise fun a b => a.toNat < b.toNat := by
  have hsorted := image.discoverFunctions_sorted codeMap
  have hnodup : (image.discoverFunctions codeMap).Nodup :=
    (List.perm_insertionSort _ _).nodup_iff.2 (List.nodup_dedup _)
  refine (hsorted.and hnodup).imp fun ⟨hle, hne⟩ => ?_
  have := BitVec.le_def.1 hle
  have : _ ≠ _ := fun h => hne (BitVec.eq_of_toNat_eq h)
  omega

end Project

namespace Project
variable {P : Project} {h : P.mappedFunctionStarts.Pairwise fun a b => a.toNat < b.toNat} {offset hint : Word}

theorem hinted_routeTable : (P.routeTable h).hinted offset hint =
    (P.hintedRoute offset hint).map fun route => ⟨route.1, route.1⟩ := by
  unfold FunctionRoutes.hinted hintedRoute routeTable
  rw [List.getElem?_map, List.getElem?_map]
  cases P.functionRoutes[hint.toNat]? with
  | none => rfl
  | some start =>
    simp only [Option.map_some, Option.all_map]
    split_ifs <;> rfl

theorem hintedRoute_hint {route : Word × Word} (h : P.hintedRoute offset hint = some route) : route.2 = hint := by
  unfold hintedRoute at h
  split at h
  · cases h
  · split_ifs at h
    rw [← Option.some.inj h]

theorem search_routeTable :
    search (fun route : FunctionRoute Word => decide (route.start ≤ offset)) (P.routeTable h).routes =
      (P.functionRoutes.takeWhile (· ≤ offset)).length := by
  have hsplit := (P.routeTable h).sorted.imp fun {a b} hlt (hb : decide (b.start ≤ offset) = true) =>
    (decide_eq_true (BitVec.le_def.2 (hlt.le.trans (BitVec.le_def.1 (of_decide_eq_true hb)))) :
      decide (a.start ≤ offset) = true)
  rw [search_eq (Splits.of_pairwise hsplit), routeTable, List.takeWhile_map, List.length_map]
  rfl

end Project

/-- Where no hook and no import is dispatched, the dispatcher enters the function it selects. -/
theorem Program.dispatchBlock_select (X : Program)
    (h : X.project.mappedFunctionStarts.Pairwise fun a b => a.toNat < b.toNat) {remaining : Nat}
    {cache : DispatchCache} {s : State} {currentPc : Word} (hpatch : X.patches s currentPc = none)
    (himport : X.tryImport s currentPc = none) :
    X.dispatchBlock remaining cache s currentPc =
      match (X.project.routeTable h).select s.memoryBase ⟨cache, fun _ : Unit => s.dispatchRouteHint⟩ () currentPc with
      | (some start, r) =>
        .runner remaining r.cache currentPc
          (.entering start currentPc [] { s with dispatchRouteHint := r.hints () })
      | (none, _) => X.afterDispatch remaining cache currentPc (false, s) := by
  unfold dispatchBlock FunctionRoutes.select
  simp only [hpatch, himport, Project.hinted_routeTable, Project.search_routeTable]
  have hindex : ((currentPc - s.memoryBase) >>> 2).setWidth 10 = cacheIndex (currentPc - s.memoryBase) := rfl
  rw [hindex]
  cases (cache (cacheIndex (currentPc - s.memoryBase))).filter fun entry => decide (entry.1 = currentPc) with
  | some entry => rfl
  | none =>
    cases hhint : X.project.hintedRoute (currentPc - s.memoryBase) s.dispatchRouteHint with
    | some route =>
      obtain ⟨start, hint⟩ := route
      obtain rfl : hint = s.dispatchRouteHint := Project.hintedRoute_hint hhint
      rfl
    | none =>
      simp only [Option.map_none, Option.none_or]
      unfold Project.searchRoute
      dsimp only
      split_ifs with hzero
      · rfl
      · have hle : (X.project.functionRoutes.takeWhile (· ≤ currentPc - s.memoryBase)).length ≤
            X.project.functionRoutes.length := (List.takeWhile_sublist _).length_le
        have hlength := (X.project.routeTable h).length_le
        rw [Project.routeTable, List.length_map] at hlength
        rw [Project.routeTable, List.getElem?_map, BitVec.toNat_ofNat, Nat.mod_eq_of_lt (by omega),
          List.getElem?_eq_getElem (by omega)]
        rfl

end Psprism
