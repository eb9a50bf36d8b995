import Qiuqiu.Rpc.ModCall
import Qiuqiu.Base.Outcome
import Qiuqiu.Base.Machine

/-!
The proxies of lualib/base/proxysvr.lua over whole runs: `GetProxy` with its two
caches, and the closures of the `send` and `call` tables of a proxy. A message of
`cluster_send` or `cluster_call` is one of the protocol `lua` on the far side
(skynet/service/clusteragent.lua), and the closures on them return nothing.
-/
namespace Qiuqiu.Rpc.Proxysvr
open ModCall (Addr CallTable Config Values genCall)
open Triple

inductive Side where
  | send
  | call
  deriving DecidableEq

def errorClustertype (addr : Addr) (nodeName kind : String) : String :=
  s!"error clustertype:{kind}, addr:{addr.text}, nodeName:{nodeName}"

/-- The table that `gen_send` makes. -/
def genSend (cfg : Config) (addr : Addr) (nodeName : String) (clustertype : Option String) :
    Except String CallTable :=
  if nodeName = cfg.selfnode then .ok .selfNode
  else
    match clustertype with
    | none => .ok .dpcluster
    | some kind =>
        if kind = "cluster" then .ok .cluster
        else if kind = "dpcluster" then .ok .dpcluster
        else .error (errorClustertype addr nodeName kind)

/-- A proxy that `create_proxysvr` made; `id` is the identity of the table. -/
structure Proxy (cfg : Config) where
  id : Nat
  addr : Addr
  nodeName : String
  clustertype : Option String
  prototype : Option String
  send : CallTable
  call : CallTable
  sendMade : genSend cfg addr nodeName clustertype = .ok send
  callMade : genCall cfg addr nodeName clustertype = .ok call
  deriving DecidableEq

def Proxy.table {cfg : Config} (proxy : Proxy cfg) : Side → CallTable
  | .send => proxy.send
  | .call => proxy.call

/-- A message as the service that it is for receives it. -/
structure Request (V : Type) where
  side : Side
  node : String
  addr : Addr
  protocol : String
  args : List V

/-- The upvalues of a table. A function of `cacheFunc` is the name it was made with. -/
structure Upvalues where
  addrNum : Option Nat := none
  cacheFunc : String → Option String := fun _ => none

/-- `selfNode` and `othernode` are the parts of `ALL_PROXYSVR`, `proxies` has all that
were made, and `answers` what `skynet.localname` has answered. -/
structure World (cfg : Config) (V : Type) where
  selfNode : Addr → Option (Proxy cfg)
  othernode : Addr → String → Option (Proxy cfg)
  proxies : List (Proxy cfg)
  upvalues : Nat → Side → Upvalues
  answers : List (String × Nat)
  sent : List (Request V)

variable {cfg : Config} {V : Type}

def World.init : World cfg V where
  selfNode := fun _ => none
  othernode := fun _ _ => none
  proxies := []
  upvalues := fun _ _ => {}
  answers := []
  sent := []

def World.setUpvalues (w : World cfg V) (id : Nat) (side : Side) (u : Upvalues) : World cfg V :=
  { w with upvalues := fun id' side' =>
      if id' = id ∧ side' = side then u else w.upvalues id' side' }

/-- `ALL_PROXYSVR.self_node[addr] = proxy`. -/
def World.setSelfNode (addr : Addr) (proxy : Proxy cfg) (w : World cfg V) : World cfg V :=
  { w with selfNode := Function.update w.selfNode addr (some proxy) }

/-- `ALL_PROXYSVR.othernode[addr][node_name] = proxy`. -/
def World.setOthernode (addr : Addr) (nodeName : String) (proxy : Proxy cfg) (w : World cfg V) :
    World cfg V :=
  let nodes := Function.update (w.othernode addr) nodeName (some proxy)
  { w with othernode := Function.update w.othernode addr nodes }

abbrev Run (cfg : Config) (V α : Type) := ExceptT String (StateM (World cfg V)) α

section Proxies

def createProxysvr (addr : Addr) (nodeName : String) (clustertype prototype : Option String) :
    Run cfg V (Proxy cfg) := do
  match sendMade : genSend cfg addr nodeName clustertype with
  | .error err => throw err
  | .ok send =>
      match callMade : genCall cfg addr nodeName clustertype with
      | .error err => throw err
      | .ok call =>
          let id := (← get).proxies.length
          let proxy := ⟨id, addr, nodeName, clustertype, prototype, send, call, sendMade, callMade⟩
          modify fun w => { w with proxies := w.proxies ++ [proxy] }
          return proxy

def getProxy (addr : Addr) (nodeName clustertype prototype : Option String) :
    Run cfg V (Proxy cfg) := do
  match nodeName with
  | none => throw "assertion failed!"
  | some nodeName =>
      if nodeName = cfg.selfnode then
        match ((← get).selfNode addr).filter (·.prototype = prototype) with
        | some proxy => return proxy
        | none =>
            let proxy ← createProxysvr addr nodeName clustertype prototype
            modify (World.setSelfNode addr proxy)
            return proxy
      else
        match ((← get).othernode addr nodeName).filter (·.prototype = prototype) with
        | some proxy =>
            if clustertype = proxy.clustertype then return proxy
            else throw "assertion failed!"
        | none =>
            let proxy ← createProxysvr addr nodeName clustertype prototype
            modify (World.setOthernode addr nodeName proxy)
            return proxy

end Proxies

/-- `proxy.call.<k>(...)` or, without a `k`, `proxy.call(...)`, and likewise of `send`;
`localname` is `skynet.localname` at the time, `back` what the transport returns. -/
structure Use (cfg : Config) (V : Type) where
  proxy : Proxy cfg
  side : Side
  k : Option String
  args : List V
  localname : String → Option Nat
  back : List V

section Closures
variable (val : Values V) (u : Use cfg V)

def addrNum : Run cfg V Nat := do
  let up := (← get).upvalues u.proxy.id u.side
  match u.proxy.addr with
  | .num addr =>
      modify fun w => w.setUpvalues u.proxy.id u.side { up with addrNum := some addr }
      return addr
  | .name addr =>
      match up.addrNum with
      | some num => return num
      | none =>
          match u.localname addr with
          | none => throw ("not service by name" ++ addr)
          | some num =>
              modify fun w => { w.setUpvalues u.proxy.id u.side { up with addrNum := some num } with
                answers := w.answers ++ [(addr, num)] }
              return num

/-- The function under `k`, and what it puts before its arguments. -/
def command : Run cfg V (List V) := do
  match u.k with
  | none => return []
  | some k =>
      let up := (← get).upvalues u.proxy.id u.side
      match up.cacheFunc k with
      | some func => return [val.ofName func]
      | none =>
          modify fun w => w.setUpvalues u.proxy.id u.side
            { up with cacheFunc := Function.update up.cacheFunc k (some k) }
          return [val.ofName k]

def objCheck : Run cfg V Unit := do
  if cfg.isTestserver && u.args.any val.isObj then throw "param can not be obj"

def deliver (request : Request V) : Run cfg V Unit :=
  modify fun w => { w with sent := w.sent ++ [request] }

def Use.prototype : String := u.proxy.prototype.getD "lua"

def use : Run cfg V (List V) := do
  match u.proxy.table u.side with
  | .selfNode =>
      let num ← addrNum u
      let first ← command val u
      objCheck val u
      deliver ⟨u.side, cfg.selfnode, .num num, u.prototype, first ++ u.args⟩
      return u.back
  | .cluster =>
      let first ← command val u
      objCheck val u
      let payload := val.ofName u.prototype :: (first ++ u.args)
      deliver ⟨u.side, u.proxy.nodeName, u.proxy.addr, "lua", payload⟩
      return []
  | .dpcluster =>
      let first ← command val u
      objCheck val u
      deliver ⟨u.side, u.proxy.nodeName, u.proxy.addr, u.prototype, first ++ u.args⟩
      return u.back

end Closures

inductive Event (cfg : Config) (V : Type) where
  | getProxy (addr : Addr) (nodeName clustertype prototype : Option String)
  | use (u : Use cfg V)

inductive Result (cfg : Config) (V : Type) where
  | proxy (proxy : Except String (Proxy cfg))
  | values (values : Except String (List V))

def World.step (val : Values V) (w : World cfg V) :
    Event cfg V → Option (World cfg V × Result cfg V)
  | .getProxy addr nodeName clustertype prototype =>
      let out := outcome (getProxy addr nodeName clustertype prototype) w
      some (out.2, .proxy out.1)
  | .use u =>
      if u.proxy ∈ w.proxies then
        let out := outcome (use val u) w
        some (out.2, .values out.1)
      else none

/-- The runs of a service: only proxies that were obtained can be used. -/
def machine (val : Values V) : Machine (World cfg V) (Event cfg V) (Result cfg V) where
  init := .init
  step := World.step val

section Tables

theorem genSend_raises (cfg : Config) (addr : Addr) (nodeName : String)
    (clustertype : Option String) :
    ModCall.genSend cfg addr nodeName clustertype =
      (genSend cfg addr nodeName clustertype).map fun _ => () := by
  simp only [ModCall.genSend, genSend]
  split
  · rfl
  · cases clustertype with
    | none => rfl
    | some kind =>
        by_cases cluster : kind = "cluster"
        · simp only [cluster, true_or, if_true]
          rfl
        · by_cases dpcluster : kind = "dpcluster"
          · simp only [dpcluster, or_true, if_true]
            rfl
          · simp only [cluster, dpcluster, or_self, if_false]
            rfl

/-- The node and the cluster type say which closures a proxy has. -/
def kindOf (cfg : Config) (nodeName : String) (clustertype : Option String) : CallTable :=
  if nodeName = cfg.selfnode then .selfNode
  else if clustertype = some "cluster" then .cluster
  else .dpcluster

theorem genSend_kind {addr : Addr} {nodeName : String} {clustertype : Option String}
    {send : CallTable} (made : genSend cfg addr nodeName clustertype = .ok send) :
    send = kindOf cfg nodeName clustertype := by
  simp only [genSend] at made
  simp only [kindOf]
  split at made
  · cases made
    simp_all
  · rw [if_neg (by assumption)]
    cases clustertype with
    | none =>
        cases made
        rfl
    | some kind =>
        dsimp only at made
        split at made
        · cases made
          simp_all
        · split at made
          · cases made
            simp_all
          · cases made

theorem genCall_kind {addr : Addr} {nodeName : String} {clustertype : Option String}
    {call : CallTable} (made : genCall cfg addr nodeName clustertype = .ok call) :
    call = kindOf cfg nodeName clustertype := by
  have sendMade : genSend cfg addr nodeName clustertype = .ok call := by
    simp only [genCall] at made
    simp only [genSend]
    split at made
    · rwa [if_pos (by assumption)]
    · rw [if_neg (by assumption)]
      split at made
      · exact made
      · cases made
  exact genSend_kind sendMade

theorem Proxy.table_kind (proxy : Proxy cfg) (side : Side) :
    proxy.table side = kindOf cfg proxy.nodeName proxy.clustertype := by
  cases side with
  | send => exact genSend_kind proxy.sendMade
  | call => exact genCall_kind proxy.callMade

end Tables

end Qiuqiu.Rpc.Proxysvr
