import Qiuqiu.Rpc.ModCall
import Qiuqiu.Base.Triple
import Qiuqiu.Base.Machine

/-!
No module function runs through `RPC.mod_call`. What the test in `RPC_CMD.mod`
lets through is no function, so every call raises: on the own node and through
dpcluster, whatever the caches hold and whatever becomes of the message. A
call is like a local one exactly when the function is missing.
-/
namespace Qiuqiu.Rpc.ModCall
open Std.Do

set_option mvcgen.warning false

variable {S V : Type} {cfg : Config}

theorem genCall_none {addr : Addr} {nodeName : String} {call : CallTable}
    (made : genCall cfg addr nodeName none = .ok call) : call ≠ .cluster := by
  simp only [genCall] at made
  split at made
  · cases made
    decide
  · split at made
    · cases made
      decide
    · cases made

theorem genCall_self {addr : Addr} {clustertype : Option String} {call : CallTable}
    (made : genCall cfg addr cfg.selfnode clustertype = .ok call) : call = .selfNode := by
  simp only [genCall, if_true] at made
  cases made
  rfl

theorem Proxy.call_of_none {proxy : Proxy cfg} (plain : proxy.clustertype = none) :
    proxy.call ≠ .cluster := by
  have made := proxy.made
  rw [plain] at made
  exact genCall_none made

theorem Proxy.call_of_self {proxy : Proxy cfg} (self : proxy.nodeName = cfg.selfnode) :
    proxy.call ≠ .cluster := by
  have made := proxy.made
  rw [self] at made
  rw [genCall_self made]
  decide

/-- The entries of a map whose proxies do not go through `cluster_call`. -/
def Plain (map : ServiceMap cfg) : Prop :=
  ∀ name data proxy, map name = some data → data.svr = some proxy → proxy.call ≠ .cluster

theorem Plain.add {map : ServiceMap cfg} (plain : Plain map) (name : String)
    {data : ServiceData cfg} (svr : ∀ proxy, data.svr = some proxy → proxy.call ≠ .cluster) :
    Plain (Function.update map name (some data)) := by
  intro name' data' proxy held
  simp only [Function.update_apply] at held
  split at held
  · cases held
    exact svr proxy
  · exact plain name' data' proxy held

theorem Plain.empty : Plain (fun _ => none : ServiceMap cfg) := by
  intro _ _ _ held
  cases held

theorem Plain.add_none {map : ServiceMap cfg} (plain : Plain map) (name : String)
    (serviceName : String) (modCall : Bool) :
    Plain (Function.update map name (some ⟨serviceName, none, modCall⟩)) := by
  refine plain.add name ?_
  rintro proxy ⟨⟩

theorem Plain.add_svr {map : ServiceMap cfg} (plain : Plain map) (name : String)
    (serviceName : String) (modCall : Bool) {svr : Proxy cfg} (direct : svr.call ≠ .cluster) :
    Plain (Function.update map name (some ⟨serviceName, some svr, modCall⟩)) := by
  refine plain.add name ?_
  rintro proxy ⟨⟩
  exact direct

def DirectEntry : Entry cfg → Prop
  | .nodeFunc proxySvr _ _ => proxySvr.call ≠ .cluster
  | _ => True

/-- No proxy that a call can reach goes through `cluster_call`. -/
structure Direct (c : Caller cfg) : Prop where
  selfNode : ∀ addr proxy, c.selfNode addr = some proxy → proxy.nodeName = cfg.selfnode
  serviceMap : Plain c.serviceMap
  cached : ∀ path entry, c.cache path = some entry → DirectEntry entry

/-- The callee is as it was. -/
def Steady (callee : Callee S V) (w : World cfg S V) : Prop :=
  Direct w.caller ∧ w.callee = callee

variable {callee : Callee S V}

namespace Direct
variable {c : Caller cfg}

theorem numbered (direct : Direct c) (proxies : Nat) : Direct { c with proxies := proxies } :=
  ⟨direct.selfNode, direct.serviceMap, direct.cached⟩

theorem found (direct : Direct c) (addrNum : Nat → Option Nat) :
    Direct { c with addrNum := addrNum } :=
  ⟨direct.selfNode, direct.serviceMap, direct.cached⟩

theorem putOther (direct : Direct c) (othernode : Addr → String → Option (Proxy cfg)) :
    Direct { c with othernode := othernode } :=
  ⟨direct.selfNode, direct.serviceMap, direct.cached⟩

theorem putSelf (direct : Direct c) {proxy : Proxy cfg} (addr : Addr)
    (self : proxy.nodeName = cfg.selfnode) :
    Direct { c with selfNode := Function.update c.selfNode addr (some proxy) } := by
  refine ⟨?_, direct.serviceMap, direct.cached⟩
  intro addr' proxy' held
  simp only [Function.update_apply] at held
  split at held
  · cases held
    exact self
  · exact direct.selfNode addr' proxy' held

theorem putCache (direct : Direct c) {entry : Entry cfg} (path : List String)
    (plain : DirectEntry entry) :
    Direct { c with cache := Function.update c.cache path (some entry) } := by
  refine ⟨direct.selfNode, direct.serviceMap, ?_⟩
  intro path' entry' held
  simp only [Function.update_apply] at held
  split at held
  · cases held
    exact plain
  · exact direct.cached path' entry' held

end Direct

@[spec]
theorem modifyCaller_spec (f : Caller cfg → Caller cfg)
    (post : PostCond Unit (.except String (.arg (World cfg S V) .pure))) :
    ⦃fun w => post.1 () { w with caller := f w.caller }⦄
    (modifyCaller f : Run cfg S V Unit) ⦃post⦄ := by
  mvcgen [modifyCaller]

@[spec]
theorem createProxysvr_spec (addr : Addr) (nodeName : String) (clustertype : Option String)
    (prototype : String) :
    ⦃fun w => ⌜Steady callee w⌝⦄
    (createProxysvr addr nodeName clustertype prototype : Run cfg S V (Proxy cfg))
    ⦃post⟨fun proxy w => ⌜Steady callee w ∧ proxy.nodeName = nodeName ∧
        proxy.clustertype = clustertype⌝,
      fun _ w => ⌜Steady callee w⌝⟩⦄ := by
  mvcgen [createProxysvr]
  case vc3 w steady _ => exact ⟨steady.1.numbered _, steady.2⟩

@[spec]
theorem getProxy_spec (addr : Addr) (nodeName : String) (clustertype : Option String)
    (prototype : String) :
    ⦃fun w => ⌜Steady callee w⌝⦄
    (getProxy addr nodeName clustertype prototype : Run cfg S V (Proxy cfg))
    ⦃post⟨fun proxy w => ⌜Steady callee w ∧ (clustertype = none → proxy.call ≠ .cluster)⌝,
      fun _ w => ⌜Steady callee w⌝⟩⦄ := by
  mvcgen [getProxy]
  case vc1 self w steady proxy held =>
      have held := (Option.filter_eq_some_iff.mp held).1
      exact ⟨steady, fun _ => Proxy.call_of_self (steady.1.selfNode addr proxy held)⟩
  case vc3 self _ _ _ proxy w steady =>
      obtain ⟨steady, node, plain⟩ := steady
      refine ⟨⟨steady.1.putSelf addr (node.trans self), steady.2⟩, ?_⟩
      exact fun _ => Proxy.call_of_self (node.trans self)
  case vc4 _ w steady proxy _ plain =>
      exact ⟨steady, fun none => Proxy.call_of_none (plain.symm.trans none)⟩
  case vc7 _ _ _ _ proxy w steady =>
      obtain ⟨steady, _, plain⟩ := steady
      refine ⟨⟨steady.1.putOther _, steady.2⟩, ?_⟩
      exact fun none => Proxy.call_of_none (plain.trans none)

@[spec]
theorem getProxyByServiceName_spec (serviceName prototype : String) :
    ⦃fun w => ⌜Steady callee w⌝⦄
    (getProxyByServiceName serviceName prototype : Run cfg S V (Proxy cfg))
    ⦃post⟨fun proxy w => ⌜Steady callee w ∧ proxy.call ≠ .cluster⌝,
      fun _ w => ⌜Steady callee w⌝⟩⦄ := by
  mvcgen [getProxyByServiceName]
  case vc2 => exact fun steady plain => ⟨steady, plain⟩
  case vc7 => exact fun steady plain => ⟨steady, plain⟩

@[spec]
theorem addService_spec (map : ServiceMap cfg) (plain : Plain map) (name : String)
    (row : ServerInfo) (modCall : Bool) :
    ⦃fun w => ⌜Steady callee w⌝⦄
    (addService map name row modCall : Run cfg S V (ServiceMap cfg))
    ⦃post⟨fun map' w => ⌜Steady callee w ∧ Plain map'⌝, fun _ w => ⌜Steady callee w⌝⟩⦄ := by
  mvcgen [addService]
  case vc3 steady => exact ⟨steady.1, plain.add_svr name row.service modCall steady.2⟩

@[spec]
theorem addRow_spec (map : ServiceMap cfg) (plain : Plain map) (row : ServerInfo) :
    ⦃fun w => ⌜Steady callee w⌝⦄
    (addRow map row : Run cfg S V (ServiceMap cfg))
    ⦃post⟨fun map' w => ⌜Steady callee w ∧ Plain map'⌝, fun _ w => ⌜Steady callee w⌝⟩⦄ := by
  mvcgen [addRow]
  case vc2 => exact fun _ _ => plain
  case vc5 name _ _ _ _ _ steady => exact ⟨steady, plain.add_none name row.service true⟩
  case vc7 => exact fun _ _ => plain

@[spec]
theorem addRows_spec (map : ServiceMap cfg) (plain : Plain map) (rows : List ServerInfo) :
    ⦃fun w => ⌜Steady callee w⌝⦄
    (addRows map rows : Run cfg S V (ServiceMap cfg))
    ⦃post⟨fun map' w => ⌜Steady callee w ∧ Plain map'⌝, fun _ w => ⌜Steady callee w⌝⟩⦄ := by
  induction rows generalizing map with
  | nil =>
      mvcgen [addRows]
  | cons row rows ih =>
      mvcgen [addRows, ih]
      case vc3 steady => exact steady.1
      case vc4 => exact fun _ _ plain => plain

theorem addActnames_plain (names : List String) {map : ServiceMap cfg} (plain : Plain map) :
    Plain (names.foldl addActname map) := by
  induction names generalizing map with
  | nil => exact plain
  | cons name names ih =>
      refine ih ?_
      simp only [addActname]
      split
      · exact plain
      · exact plain.add_none name _ true

@[spec]
theorem load_spec :
    ⦃fun w => ⌜Steady callee w⌝⦄ (load : Run cfg S V Unit)
    ⦃post⟨fun _ w => ⌜Steady callee w⌝, fun _ w => ⌜Steady callee w⌝⟩⦄ := by
  mvcgen [load]
  case vc2 direct =>
      exact Plain.add_none (Plain.add_svr Plain.empty "gameserver" _ _ direct.2) "agent" _ _
  case vc3 steady => exact steady.1
  case vc4 steady =>
      exact ⟨⟨steady.1.1.selfNode, addActnames_plain _ steady.2, nofun⟩, steady.1.2⟩

@[spec]
theorem Global.index_spec (global : Global S V) (funcName : String) :
    ⦃fun w => ⌜Steady callee w⌝⦄ (global.index funcName : Run cfg S V (Field S V))
    ⦃post⟨fun field w => ⌜Steady callee w ∧ ∃ fields, global = .module fields ∧
        field = fields funcName⌝, fun _ w => ⌜Steady callee w⌝⟩⦄ := by
  mvcgen [Global.index]
  case vc1 steady => exact ⟨steady, _, rfl, rfl⟩

/-- What the test lets through is no function. -/
@[spec]
theorem Global.refuses_spec (global : Global S V) (funcName : String) :
    ⦃fun w => ⌜Steady callee w⌝⦄ (global.refuses funcName : Run cfg S V Bool)
    ⦃post⟨fun refused w => ⌜Steady callee w ∧ (refused = false → ∃ fields,
        global = .module fields ∧ (fields funcName).truthy = false)⌝,
      fun _ w => ⌜Steady callee w⌝⟩⦄ := by
  mvcgen [Global.refuses]
  case vc1 steady => exact ⟨steady, nofun⟩
  case vc3 index =>
      obtain ⟨steady, fields, rfl, rfl⟩ := index
      exact ⟨steady, fun refused => ⟨fields, rfl, refused⟩⟩

@[spec]
theorem rpcCmdMod_spec (svc : Service S V) (modName funcName : String) (args : List V) :
    ⦃fun w => ⌜Steady callee w⌝⦄
    (rpcCmdMod svc modName funcName args : Run cfg S V (List V))
    ⦃post⟨fun _ _ => ⌜False⌝, fun _ w => ⌜Steady callee w⌝⟩⦄ := by
  mvcgen [rpcCmdMod]
  case vc2 steady => exact steady.1
  case vc3 steady => exact steady.1
  case vc4 refused _ passed _ f _ =>
      rintro _ _ ⟨fields, held, func⟩
      obtain ⟨fields', held', truthy⟩ := passed.2 (Bool.not_eq_true _ ▸ refused)
      cases held.symm.trans held'
      rw [← func] at truthy
      cases truthy
  case vc5 steady => exact steady.1

@[spec]
theorem dispatch_spec (svc : Service S V) (session : Nat) (modName funcName : String)
    (args : List V) :
    ⦃fun w => ⌜Steady callee w⌝⦄
    (dispatch svc session modName funcName args : Run cfg S V (Option (List V)))
    ⦃post⟨fun _ _ => ⌜False⌝, fun _ w => ⌜Steady callee w⌝⟩⦄ := by
  mvcgen [dispatch]

theorem skynetCall_spec (net : Net) {remote : Run cfg S V (Option (List V))}
    (raises : ⦃fun w => ⌜Steady callee w⌝⦄ remote
      ⦃post⟨fun _ _ => ⌜False⌝, fun _ w => ⌜Steady callee w⌝⟩⦄) :
    ⦃fun w => ⌜Steady callee w⌝⦄ skynetCall net remote
    ⦃post⟨fun _ _ => ⌜False⌝, fun _ w => ⌜Steady callee w⌝⟩⦄ := by
  mvcgen [skynetCall, raises]

section Calls
variable (val : Values V) (net : Net) (svc : Service S V)

@[spec]
theorem remoteCall_spec (modName funcName : String) (args : List V) :
    ⦃fun w => ⌜Steady callee w⌝⦄
    (skynetCall net (dispatch svc net.session modName funcName args) : Run cfg S V (List V))
    ⦃post⟨fun _ _ => ⌜False⌝, fun _ w => ⌜Steady callee w⌝⟩⦄ :=
  skynetCall_spec net (dispatch_spec svc net.session modName funcName args)

@[spec]
theorem addrNum_spec (proxy : Proxy cfg) :
    ⦃fun w => ⌜Steady callee w⌝⦄ (addrNum net proxy : Run cfg S V Nat)
    ⦃post⟨fun _ w => ⌜Steady callee w⌝, fun _ w => ⌜Steady callee w⌝⟩⦄ := by
  mvcgen [addrNum]
  case vc1 steady => exact ⟨steady.1.found _, steady.2⟩
  case vc3 steady _ _ _ => exact ⟨steady.1.found _, steady.2⟩

@[spec]
theorem objCheck_spec (args : List V) :
    ⦃fun w => ⌜Steady callee w⌝⦄ (objCheck val args : Run cfg S V Unit)
    ⦃post⟨fun _ w => ⌜Steady callee w⌝, fun _ w => ⌜Steady callee w⌝⟩⦄ := by
  mvcgen [objCheck]

@[spec]
theorem dpclusterCall_spec (proxy : Proxy cfg) (modName funcName : String) (args : List V) :
    ⦃fun w => ⌜Steady callee w⌝⦄
    (dpclusterCall val net svc proxy modName funcName args : Run cfg S V (List V))
    ⦃post⟨fun _ _ => ⌜False⌝, fun _ w => ⌜Steady callee w⌝⟩⦄ := by
  mvcgen [dpclusterCall]

@[spec]
theorem proxyCall_spec (proxy : Proxy cfg) (direct : proxy.call ≠ .cluster)
    (modName funcName : String) (args : List V) :
    ⦃fun w => ⌜Steady callee w⌝⦄
    (proxyCall val net svc proxy modName funcName args : Run cfg S V (List V))
    ⦃post⟨fun _ _ => ⌜False⌝, fun _ w => ⌜Steady callee w⌝⟩⦄ := by
  mvcgen [proxyCall]

@[spec]
theorem makeEntry_spec (table : Entry cfg) (name : String) :
    ⦃fun w => ⌜Steady callee w⌝⦄ (makeEntry table name : Run cfg S V (Entry cfg))
    ⦃post⟨fun entry w => ⌜Steady callee w ∧ DirectEntry entry⌝,
      fun _ w => ⌜Steady callee w⌝⟩⦄ := by
  mvcgen [makeEntry]
  case vc7 made => exact made

@[spec]
theorem index_spec (path : List String) (table : Entry cfg) (name : String) :
    ⦃fun w => ⌜Steady callee w⌝⦄ (index path table name : Run cfg S V (Entry cfg))
    ⦃post⟨fun entry w => ⌜Steady callee w ∧ DirectEntry entry⌝,
      fun _ w => ⌜Steady callee w⌝⟩⦄ := by
  mvcgen [index]
  case vc1 steady entry held => exact ⟨steady, steady.1.cached _ entry held⟩
  case vc3 made => exact ⟨⟨made.1.1.putCache _ made.2, made.1.2⟩, made.2⟩

@[spec]
theorem walk_spec (path : List String) (table : Entry cfg) (direct : DirectEntry table)
    (names : List String) :
    ⦃fun w => ⌜Steady callee w⌝⦄ (walk path table names : Run cfg S V (Entry cfg))
    ⦃post⟨fun entry w => ⌜Steady callee w ∧ DirectEntry entry⌝,
      fun _ w => ⌜Steady callee w⌝⟩⦄ := by
  induction names generalizing path table with
  | nil =>
      mvcgen [walk]
  | cons name names ih =>
      mvcgen [walk, ih]
      case vc2 made => exact made.1
      case vc3 => exact fun _ _ direct => direct

@[spec]
theorem callEntry_spec (entry : Entry cfg) (direct : DirectEntry entry) (args : List V) :
    ⦃fun w => ⌜Steady callee w⌝⦄ (callEntry val net svc entry args : Run cfg S V (List V))
    ⦃post⟨fun _ _ => ⌜False⌝, fun _ w => ⌜Steady callee w⌝⟩⦄ := by
  mvcgen [callEntry]
  case vc2 service _ _ _ w steady svr held =>
      obtain ⟨data, found, held⟩ := Option.bind_eq_some_iff.mp held
      exact steady.1.serviceMap service data svr found held
  case vc5 entry =>
      subst entry
      exact fun _ _ => direct

@[spec]
theorem callNames_spec (service : String) (names : List String) (args : List V) :
    ⦃fun w => ⌜Steady callee w⌝⦄
    (callNames val net svc service names args : Run cfg S V (List V))
    ⦃post⟨fun _ _ => ⌜False⌝, fun _ w => ⌜Steady callee w⌝⟩⦄ := by
  mvcgen [callNames]
  case vc3 made => exact made.1
  case vc4 => exact fun _ _ direct => direct

end Calls

/-- What happens around the calls: other modules of the caller ask for proxies,
the file is loaded (again), names are walked and called, the callee runs. -/
inductive Event (S V : Type) where
  | getProxy (addr : Addr) (nodeName : String) (clustertype : Option String)
      (prototype : String)
  | load
  | call (net : Net) (service : String) (names : List String) (args : List V)
  | calleeRuns (callee : Callee S V)

def step (val : Values V) (svc : Service S V) (w : World cfg S V) :
    Event S V → Option (World cfg S V × Except String (List V))
  | .getProxy addr nodeName clustertype prototype =>
      let out := Triple.outcome (getProxy addr nodeName clustertype prototype) w
      some (out.2, out.1.map fun _ => [])
  | .load =>
      let out := Triple.outcome load w
      some (out.2, out.1.map fun _ => [])
  | .call net service names args =>
      let out := Triple.outcome (callNames val net svc service names args) w
      some (out.2, out.1)
  | .calleeRuns callee => some ({ w with callee := callee }, .ok [])

def started : Caller cfg where
  serviceMap := fun _ => none
  selfNode := fun _ => none
  othernode := fun _ _ => none
  proxies := 0
  addrNum := fun _ => none
  cache := fun _ => none

def machine (cfg : Config) (val : Values V) (svc : Service S V) (callee : Callee S V) :
    Machine (World cfg S V) (Event S V) (Except String (List V)) where
  init := ⟨started, callee⟩
  step := step val svc

section Runs
variable {val : Values V} {svc : Service S V} {w w' : World cfg S V}

theorem Steady.of_direct (direct : Direct w.caller) : Steady w.callee w := ⟨direct, rfl⟩

theorem callNames_raises (val : Values V) (svc : Service S V) (net : Net) (service : String)
    (names : List String) (args : List V) (direct : Direct w.caller) :
    ∃ err w', Triple.outcome (callNames val net svc service names args) w = (.error err, w') ∧
      Steady w.callee w' :=
  Triple.outcome_raises (callNames_spec val net svc service names args) (.of_direct direct)

theorem step_direct {e : Event S V} {o : Except String (List V)} (direct : Direct w.caller)
    (h : step val svc w e = some (w', o)) : Direct w'.caller := by
  cases e with
  | getProxy addr nodeName clustertype prototype =>
      cases h
      have kept := Triple.outcome_keeps (getProxy_spec addr nodeName clustertype prototype)
        (fun _ _ made => made.1) (Steady.of_direct direct)
      exact kept.1
  | load =>
      cases h
      have kept := Triple.outcome_keeps load_spec (fun _ _ steady => steady)
        (Steady.of_direct direct)
      exact kept.1
  | call net service names args =>
      cases h
      obtain ⟨err, w', out, steady⟩ := callNames_raises val svc net service names args direct
      rw [out]
      exact steady.1
  | calleeRuns callee =>
      cases h
      exact direct

theorem reach_direct {callee : Callee S V} {trace : List (Event S V × Except String (List V))}
    (reach : (machine cfg val svc callee).Reach trace w) : Direct w.caller := by
  refine reach.invariant (fun _ w => Direct w.caller) ?_ ?_
  · exact ⟨nofun, Plain.empty, nofun⟩
  · intro _ _ _ _ _ direct h
    exact step_direct direct h

end Runs

/-- The function of a module, if the callee has it. -/
def Service.function (svc : Service S V) (state : S) (modName funcName : String) :
    Option (Func S V) :=
  match svc.globals state modName with
  | .module field =>
      match field funcName with
      | .func f => some f
      | _ => none
  | _ => none

/-- A remote outcome that shows a local one: the same values, or an error for an error. -/
def Shows : Except String (List V) → Except String (List V) → Prop
  | .ok values, .ok values' => values' = values
  | .error _, .error _ => True
  | _, _ => False

/-- The call does in the callee what the function does there, once, and returns what
it returns; without such a function it raises and nothing runs. -/
def LikeLocal (val : Values V) (net : Net) (svc : Service S V)
    (service modName funcName : String) (args : List V) (w : World cfg S V) : Prop :=
  let out := Triple.outcome (modCall val net svc service modName funcName args) w
  match svc.function w.callee.state modName funcName with
  | some f =>
      let here := f w.callee.state args
      Shows here.1 out.1 ∧
        out.2.callee = ⟨here.2, w.callee.called ++ [(modName, funcName, args)]⟩
  | none => (∃ err, out.1 = .error err) ∧ out.2.callee = w.callee

theorem mod_call_like_local_iff (val : Values V) (svc : Service S V) {callee : Callee S V}
    {trace : List (Event S V × Except String (List V))} {w : World cfg S V}
    (reach : (machine cfg val svc callee).Reach trace w) (net : Net)
    (service modName funcName : String) (args : List V) :
    LikeLocal val net svc service modName funcName args w ↔
      svc.function w.callee.state modName funcName = none := by
  obtain ⟨err, w', out, steady⟩ := callNames_raises val svc net service
    [modName, funcName] args (reach_direct reach)
  have raised : Triple.outcome (modCall val net svc service modName funcName args) w =
      (.error err, w') := out
  simp only [LikeLocal, raised]
  cases here : svc.function w.callee.state modName funcName with
  | none => exact ⟨fun _ => rfl, fun _ => ⟨⟨err, rfl⟩, steady.2⟩⟩
  | some f =>
      refine ⟨fun like => ?_, nofun⟩
      have calls : (⟨_, w.callee.called ++ [(modName, funcName, args)]⟩ : Callee S V).called =
          w.callee.called := congrArg Callee.called (like.2.symm.trans steady.2)
      simp at calls

section Sample

/-- The gameserver runs on the node of the calling agent. -/
def sampleConfig : Config where
  serviceName := "agent"
  selfnode := "game"
  isTestserver := false
  onlyserver := fun _ => none
  serverInfo := [⟨"gameserver", ".GAMESERVER", some "game_node", false⟩]
  dpclusterNode := fun node => if node = "game_node" then some (.one "game") else none
  crossActname := []

/-- A gameserver with the one function `ROLEDATA.GetRoleData`. -/
def sampleService : Service Nat Nat where
  serviceName := "gameserver"
  globals := fun _ modName =>
    if modName = "ROLEDATA" then
      .module fun funcName =>
        if funcName = "GetRoleData" then .func fun state args => (.ok args, state + 1) else .nil
    else .nil
  luaDispatch := fun state _ => (.error "attempt to call", state)

def sampleValues : Values Nat where
  isObj := fun _ => false
  isUserdata := fun _ => false
  ofName := fun _ => 0

def sampleNet : Net where
  localname := fun addr => if addr = ".GAMESERVER" then some 8 else none
  session := 1
  session_ne := by decide
  delivery := .answered

def sampleLoaded : World sampleConfig Nat Nat :=
  (Triple.outcome load ⟨started, ⟨0, []⟩⟩).2

theorem sampleLoaded_reach :
    (machine sampleConfig sampleValues sampleService ⟨0, []⟩).Reach [(.load, .ok [])]
      sampleLoaded :=
  .next .init rfl

theorem mod_call_like_local_of_missing :
    bound sampleLoaded.caller "gameserver" = true ∧
      LikeLocal sampleValues sampleNet sampleService "gameserver" "ROLEDATA" "SetRoleData" [3]
        sampleLoaded :=
  ⟨rfl, (mod_call_like_local_iff sampleValues sampleService sampleLoaded_reach sampleNet
    "gameserver" "ROLEDATA" "SetRoleData" [3]).mpr rfl⟩

/-- The callee answers, has the function, and the call raises without running it. -/
theorem mod_call_refuses_existing :
    bound sampleLoaded.caller "gameserver" = true ∧
      (sampleService.function 0 "ROLEDATA" "GetRoleData").isSome = true ∧
      ¬ LikeLocal sampleValues sampleNet sampleService "gameserver" "ROLEDATA" "GetRoleData" [3]
        sampleLoaded := by
  refine ⟨rfl, rfl, ?_⟩
  intro like
  have calls : [("ROLEDATA", "GetRoleData", [3])] = ([] : List (String × String × List Nat)) :=
    (congrArg Callee.called like.2).symm
  cases calls

end Sample

end Qiuqiu.Rpc.ModCall
