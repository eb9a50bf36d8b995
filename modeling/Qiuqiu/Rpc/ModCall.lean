import Mathlib.Logic.Function.Basic

/-!
Calls of module functions in another service, `RPC.mod_call` (lualib/rpc.lua):
the cached tables a call is written through, the proxy of the callee with its
node and cluster branches (lualib/base/proxysvr.lua), and the far side. There
the test in `RPC_CMD.mod` is inverted: it refuses the functions that exist.
-/
namespace Qiuqiu.Rpc.ModCall
variable {S V : Type}

/-- A function of the callee: it may change the service, and returns or raises. -/
abbrev Func (S V : Type) := S → List V → Except String (List V) × S

/-- What a module has under a name; `value` is any true value but a function. -/
inductive Field (S V : Type) where
  | nil
  | isFalse
  | value
  | func (f : Func S V)

/-- What `_G` has under a name; `value` is any true value that has no fields. -/
inductive Global (S V : Type) where
  | nil
  | isFalse
  | value
  | module (field : String → Field S V)

def Field.truthy : Field S V → Bool
  | .nil | .isFalse => false
  | .value | .func _ => true

def Global.truthy : Global S V → Bool
  | .nil | .isFalse => false
  | .value | .module _ => true

/-- The callee. `luaDispatch` is its own dispatch of `lua` messages. -/
structure Service (S V : Type) where
  serviceName : String
  globals : S → String → Global S V
  luaDispatch : Func S V

/-- `called` records the functions that ran. -/
structure Callee (S V : Type) where
  state : S
  called : List (String × String × List V)

/-- A row of `NODE_SERVER_INFO`; a `node` that is a table is `none`. -/
structure ServerInfo where
  service : String
  named : String
  node : Option String
  servercross : Bool

/-- An entry of `DPCLUSTER_NODE`: a node, or a table of nodes by server. -/
inductive NodeName where
  | one (nodeName : String)
  | byServer

/-- What the caller is started with: its name, that of its node, the tables of
lualib/namedsvr.lua, `DPCLUSTER_NODE` and `CROSS_ACTNAME_IPPORTSVC_CONTAINSUB`. -/
structure Config where
  serviceName : String
  selfnode : String
  isTestserver : Bool
  onlyserver : String → Option String
  serverInfo : List ServerInfo
  dpclusterNode : String → Option NodeName
  crossActname : List (String × String)

inductive Addr where
  | name (addr : String)
  | num (addr : Nat)
  deriving DecidableEq

def Addr.text : Addr → String
  | .name addr => addr
  | .num addr => toString addr

/-- The tables that `gen_call` makes. -/
inductive CallTable where
  | selfNode
  | cluster
  | dpcluster
  deriving DecidableEq

/-- `string.match(nodeName, "([^:]+):(.*)$")` finds a host and a port. -/
def matchHostPort : List Char → Bool
  | a :: b :: rest => (a != ':' && b == ':') || matchHostPort (b :: rest)
  | _ => false

def genSend (cfg : Config) (addr : Addr) (nodeName : String) (clustertype : Option String) :
    Except String Unit :=
  if nodeName = cfg.selfnode then .ok ()
  else
    match clustertype with
    | none => .ok ()
    | some kind =>
        if kind = "cluster" ∨ kind = "dpcluster" then .ok ()
        else .error s!"error clustertype:{kind}, addr:{addr.text}, nodeName:{nodeName}"

def genCall (cfg : Config) (addr : Addr) (nodeName : String) (clustertype : Option String) :
    Except String CallTable :=
  if nodeName = cfg.selfnode then .ok .selfNode
  else if matchHostPort nodeName.toList then
    match clustertype with
    | none => .ok .dpcluster
    | some kind =>
        if kind = "cluster" then .ok .cluster
        else if kind = "dpcluster" then .ok .dpcluster
        else .error s!"error clustertype:{kind}, addr:{addr.text}, nodeName:{nodeName}"
  else .error ("not math host:port " ++ nodeName)

/-- A proxy that `create_proxysvr` made; `id` is the identity of the table. -/
structure Proxy (cfg : Config) where
  id : Nat
  addr : Addr
  nodeName : String
  clustertype : Option String
  prototype : String
  call : CallTable
  made : genCall cfg addr nodeName clustertype = .ok call

/-- The tables and functions that the names of a call lead to, from the service on. -/
inductive Entry (cfg : Config) where
  | service (name : String)
  | mod (name tModName : String)
  | node (named tModName : String)
  | nodeMod (named tModName modName : String)
  | modFunc (name tModName funcName : String)
  | nodeFunc (proxySvr : Proxy cfg) (modName funcName : String)

/-- An entry of `SERVICE_MAP`; `modCall` is `cuse.mod_call`. -/
structure ServiceData (cfg : Config) where
  serviceName : String
  svr : Option (Proxy cfg)
  modCall : Bool

/-- The caller. `selfNode` and `othernode` are the parts of `ALL_PROXYSVR`,
`addrNum` has the address each proxy has looked up, and `cache` the entries of
the nested caches by the names that lead to them. -/
structure Caller (cfg : Config) where
  serviceMap : String → Option (ServiceData cfg)
  selfNode : Addr → Option (Proxy cfg)
  othernode : Addr → String → Option (Proxy cfg)
  proxies : Nat
  addrNum : Nat → Option Nat
  cache : List String → Option (Entry cfg)

structure World (cfg : Config) (S V : Type) where
  caller : Caller cfg
  callee : Callee S V

abbrev Run (cfg : Config) (S V α : Type) := ExceptT String (StateM (World cfg S V)) α

variable {cfg : Config}

def modifyCaller (f : Caller cfg → Caller cfg) : Run cfg S V Unit :=
  modify fun w => { w with caller := f w.caller }

section Callee

/-- A function runs in the callee. -/
def runFunc (f : Func S V) (modName funcName : String) (args : List V) :
    Run cfg S V (List V) := do
  let w ← get
  let (result, state) := f w.callee.state args
  set { w with callee := ⟨state, w.callee.called ++ [(modName, funcName, args)]⟩ }
  match result with
  | .ok values => return values
  | .error err => throw err

def Global.index (global : Global S V) (funcName : String) : Run cfg S V (Field S V) :=
  match global with
  | .module field => return field funcName
  | _ => throw "attempt to index"

/-- `not _G[modName] or _G[modName][funcName]`. -/
def Global.refuses (global : Global S V) (funcName : String) : Run cfg S V Bool := do
  if !global.truthy then return true
  return (← global.index funcName).truthy

def rpcCmdMod (svc : Service S V) (modName funcName : String) (args : List V) :
    Run cfg S V (List V) := do
  let global := svc.globals (← get).callee.state modName
  if ← global.refuses funcName then
    throw s!"{svc.serviceName} not modName:{modName} funcName:{funcName}"
  match ← global.index funcName with
  | .func f => runFunc f modName funcName args
  | _ => throw "attempt to call"

def isWord (c : Char) : Bool := c.isAlphanum || c == '_'

/-- `string.find(serviceName, "^actsvc/([%w_]+)")`, with the kind as a parameter. -/
def findName (kind serviceName : String) : Option String :=
  if kind.toList.isPrefixOf serviceName.toList then
    let name := (serviceName.toList.drop kind.length).takeWhile isWord
    if name = [] then none else some (String.ofList name)
  else none

/-- The services that have `RPC_CMD.mod`. -/
def hasMod (serviceName : String) : Bool :=
  serviceName = "gameserver" || (findName "actsvc/" serviceName).isSome

/-- The default dispatch function on a message `mod`; a call has a session. -/
def dispatch (svc : Service S V) (session : Nat) (modobj funcName : String)
    (args : List V) : Run cfg S V (Option (List V)) := do
  if !hasMod svc.serviceName then throw "assertion failed!"
  if session = 0 then
    let _ ← rpcCmdMod svc modobj funcName args
    return none
  else
    return some (← rpcCmdMod svc modobj funcName args)

end Callee

section Proxies

def createProxysvr (addr : Addr) (nodeName : String) (clustertype : Option String)
    (prototype : String) : Run cfg S V (Proxy cfg) := do
  if let .error err := genSend cfg addr nodeName clustertype then throw err
  match made : genCall cfg addr nodeName clustertype with
  | .error err => throw err
  | .ok call =>
      let id := (← get).caller.proxies
      modifyCaller fun c => { c with proxies := id + 1 }
      return ⟨id, addr, nodeName, clustertype, prototype, call, made⟩

def getProxy (addr : Addr) (nodeName : String) (clustertype : Option String)
    (prototype : String) : Run cfg S V (Proxy cfg) := do
  if nodeName = cfg.selfnode then
    match ((← get).caller.selfNode addr).filter (·.prototype = prototype) with
    | some proxy => return proxy
    | none =>
        let proxy ← createProxysvr addr nodeName clustertype prototype
        modifyCaller fun c =>
          { c with selfNode := Function.update c.selfNode addr (some proxy) }
        return proxy
  else
    match ((← get).caller.othernode addr nodeName).filter (·.prototype = prototype) with
    | some proxy =>
        if clustertype = proxy.clustertype then return proxy
        else throw "assertion failed!"
    | none =>
        let proxy ← createProxysvr addr nodeName clustertype prototype
        modifyCaller fun c =>
          let nodes := Function.update (c.othernode addr) nodeName (some proxy)
          { c with othernode := Function.update c.othernode addr nodes }
        return proxy

/-- Without a server id. No row of lualib/namedsvr.lua has a `clustertype`. -/
def getProxyByServiceName (serviceName prototype : String) : Run cfg S V (Proxy cfg) := do
  match cfg.onlyserver serviceName with
  | some named => getProxy (.name named) cfg.selfnode none prototype
  | none =>
      match cfg.serverInfo.reverse.find? (·.service = serviceName) with
      | none => throw ("not proxy:" ++ serviceName)
      | some namedData =>
          match namedData.node.bind cfg.dpclusterNode with
          | none => throw "assertion failed!"
          | some .byServer => throw "servercross, has not 3th param"
          | some (.one nodeName) => getProxy (.name namedData.named) nodeName none prototype

end Proxies

section Binding

abbrev ServiceMap (cfg : Config) := String → Option (ServiceData cfg)

/-- The entry of a service that is found by its name, if it has none yet. -/
def addService (map : ServiceMap cfg) (name : String) (row : ServerInfo) (modCall : Bool) :
    Run cfg S V (ServiceMap cfg) := do
  if (map name).isSome then throw "assertion failed!"
  let svr ← getProxyByServiceName row.service "rpc"
  return Function.update map name (some ⟨row.service, some svr, modCall⟩)

def addRow (map : ServiceMap cfg) (row : ServerInfo) : Run cfg S V (ServiceMap cfg) := do
  match findName "actsvc/" row.service with
  | some name => addService map name row (name ≠ "svcevent")
  | none =>
      match findName "crosssvc/" row.service with
      | none => return map
      | some name =>
          if row.servercross then
            if (map name).isSome then throw "assertion failed!"
            return Function.update map name (some ⟨row.service, none, true⟩)
          else addService map name row true

def addRows (map : ServiceMap cfg) : List ServerInfo → Run cfg S V (ServiceMap cfg)
  | [] => return map
  | row :: rows => do addRows (← addRow map row) rows

def addActname (map : ServiceMap cfg) (actName : String) : ServiceMap cfg :=
  if (map actName).isSome then map
  else Function.update map actName (some ⟨"crosssvc" ++ actName, none, true⟩)

/-- `SERVICE_MAP` and the tables that `BindAllFunc` makes from it. -/
def load : Run cfg S V Unit := do
  let svr ← getProxyByServiceName "gameserver" "rpc"
  let map : ServiceMap cfg := Function.update (fun _ => none) "gameserver"
    (some ⟨"gameserver", some svr, true⟩)
  let map := Function.update map "agent" (some ⟨"agent", none, false⟩)
  let map ← addRows map cfg.serverInfo
  let map := (cfg.crossActname.map Prod.fst).foldl addActname map
  modifyCaller fun c => { c with serviceMap := map, cache := fun _ => none }

end Binding

/-- What became of a message that waits for an answer. -/
inductive Delivery where
  | answered
  | unanswered (err : String)
  | lost (err : String)

/-- What a call meets: the names known on the node, its session, and what becomes
of its message. -/
structure Net where
  localname : String → Option Nat
  session : Nat
  session_ne : session ≠ 0
  delivery : Delivery

/-- What the code asks of Lua values. -/
structure Values (V : Type) where
  isObj : V → Bool
  isUserdata : V → Bool
  ofName : String → V

section Calls
variable (val : Values V) (net : Net) (svc : Service S V)

/-- `addr_num` of a proxy on the own node. -/
def addrNum (proxy : Proxy cfg) : Run cfg S V Nat := do
  let found (num : Nat) : Run cfg S V Nat := do
    modifyCaller fun c => { c with addrNum := Function.update c.addrNum proxy.id (some num) }
    return num
  match proxy.addr with
  | .num num => found num
  | .name addr =>
      match (← get).caller.addrNum proxy.id with
      | some num => return num
      | none =>
          match net.localname addr with
          | some num => found num
          | none => throw ("not service by name" ++ addr)

def objCheck (args : List V) : Run cfg S V Unit := do
  if cfg.isTestserver && args.any val.isObj then throw "param can not be obj"

/-- A call delivers the reply or raises. -/
def skynetCall (remote : Run cfg S V (Option (List V))) : Run cfg S V (List V) := do
  match net.delivery with
  | .lost err => throw err
  | .unanswered err =>
      let _ ← tryCatch remote fun _ => pure none
      throw err
  | .answered =>
      match ← tryCatch remote fun _ => throw "call failed" with
      | some values => return values
      | none => throw "call failed"

def dpclusterCall (proxy : Proxy cfg) (modName funcName : String) (args : List V) :
    Run cfg S V (List V) := do
  if args.any val.isUserdata then
    let no := args.findIdx val.isUserdata + 4
    throw s!"node:{proxy.nodeName}, address:{proxy.addr.text}, elem no:{no} is userdata"
  let values ← skynetCall net (dispatch svc net.session modName funcName args)
  if cfg.isTestserver && values.any val.isUserdata then throw "dpcluster ret has point error!"
  return values

/-- `proxy.call.mod(modName, funcName, ...)`. On the far side of `cluster_call`
the message is one of the protocol `lua`, and its values are dropped. -/
def proxyCall (proxy : Proxy cfg) (modName funcName : String) (args : List V) :
    Run cfg S V (List V) := do
  match proxy.call with
  | .selfNode =>
      let _ ← addrNum net proxy
      objCheck val args
      skynetCall net (dispatch svc net.session modName funcName args)
  | .cluster =>
      objCheck val args
      let payload := ["rpc", "mod", modName, funcName].map val.ofName ++ args
      let _ ← skynetCall net (some <$> runFunc svc.luaDispatch "lua" "rpc" payload)
      return []
  | .dpcluster =>
      objCheck val args
      dpclusterCall val net svc proxy modName funcName args

/-- What `__index` of a table makes for a name that is not in its cache. -/
def makeEntry (table : Entry cfg) (name : String) : Run cfg S V (Entry cfg) := do
  match table with
  | .service service =>
      if name.toList.contains ':' then
        match cfg.crossActname.lookup service with
        | none => throw ("not cross actname ipportsvc:" ++ service)
        | some named => return .node named name
      else return .mod service name
  | .mod service tModName => return .modFunc service tModName name
  | .node named tModName => return .nodeMod named tModName name
  | .nodeMod named tModName modName =>
      return .nodeFunc (← getProxy (.name named) tModName none "rpc") modName name
  | .modFunc .. | .nodeFunc .. => throw "attempt to index a function value"

def index (path : List String) (table : Entry cfg) (name : String) :
    Run cfg S V (Entry cfg) := do
  match (← get).caller.cache (path ++ [name]) with
  | some entry => return entry
  | none =>
      let entry ← makeEntry table name
      modifyCaller fun c =>
        { c with cache := Function.update c.cache (path ++ [name]) (some entry) }
      return entry

def callEntry (entry : Entry cfg) (args : List V) : Run cfg S V (List V) := do
  match entry with
  | .modFunc service tModName funcName =>
      match ((← get).caller.serviceMap service).bind ServiceData.svr with
      | none => throw s!"actName:{service} not proxy!"
      | some svr => proxyCall val net svc svr tModName funcName args
  | .nodeFunc proxySvr modName funcName => proxyCall val net svc proxySvr modName funcName args
  | _ => throw "attempt to call a table value"

/-- The services that `BindFunc` gives a table in `mod_call`. -/
def bound (caller : Caller cfg) (service : String) : Bool :=
  match caller.serviceMap service with
  | none => false
  | some data => data.serviceName ≠ cfg.serviceName && data.modCall

/-- The entry that further names lead to. -/
def walk (path : List String) (table : Entry cfg) : List String → Run cfg S V (Entry cfg)
  | [] => return table
  | name :: names => do walk (path ++ [name]) (← index path table name) names

/-- `RPC.mod_call.<service>.<name>. ... .<name>(...)`. -/
def callNames (service : String) (names : List String) (args : List V) :
    Run cfg S V (List V) := do
  if bound (← get).caller service then
    callEntry val net svc (← walk [service] (.service service) names) args
  else throw "attempt to index a nil value"

def modCall (service modName funcName : String) (args : List V) : Run cfg S V (List V) :=
  callNames val net svc service [modName, funcName] args

end Calls

end Qiuqiu.Rpc.ModCall
