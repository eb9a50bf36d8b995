import Qiuqiu.Base.Assoc
import Qiuqiu.Base.Find
import Qiuqiu.Base.Loop

/-!
The addresses of the nodes, read from the centre database
(lualib/base/nodeinfo.lua). A game server has a row in `game_server` whose
`_serverid` columns name the cross servers it works with; a cross server has a row
in `cross_server` with its address, what it has started and, again in `_serverid`
columns, the cross servers that do some work in its place.
-/
namespace Qiuqiu.Nodeinfo
open Find

/-- The names of columns and nodes, and the addresses. -/
abbrev Name := List Char

def serverid : Name := "_serverid".toList

def isStartup : Name := "is_startup_".toList

def node : Name := "_node".toList

inductive Value where
  | int (n : Int)
  | text (s : Name)
  deriving DecidableEq

/-- The value as `..` and `%s` write it. -/
def Value.tostring : Value → Name
  | .int n => (toString n).toList
  | .text s => s

def Value.isInt : Value → Bool
  | .int _ => true
  | .text _ => false

/-- The columns of a row that are not NULL, which the driver gives as a table. The
`_serverid` columns are integers in both tables. -/
structure Row where
  cols : List (Name × Value)
  keyed : Assoc.Keyed cols
  serverids : ∀ x ∈ cols, serverid <:+ x.1 → x.2.isInt = true

def Row.get (row : Row) (name : Name) : Option Value := row.cols.lookup name

def Row.serverId (row : Row) : Option Value := row.get "server_id".toList

/-- A table of the database, with `server_id` its primary key. -/
structure Table where
  rows : List Row
  primary : (rows.map Row.serverId).Nodup

/-- The rows of `select * from .. where server_id = ..`. -/
def Table.select (table : Table) (id : Int) : List Row :=
  table.rows.filter fun row => row.serverId = some (.int id)

/-- What a query gives. -/
inductive Res where
  | badresult
  | rows (rows : List Row)

structure Db where
  gameServer : Int → Res
  crossServer : Int → Res

/-- A database that answers its queries from two tables. -/
def answers (game cross : Table) : Db where
  gameServer id := .rows (game.select id)
  crossServer id := .rows (cross.select id)

/-- Why a function returns false. -/
inductive Failure where
  | isCross
  | isGame
  | sameServerId (key : Name) (value : Value)
  | notStartup (key : Name) (value : Option Value)
  | query (table : String) (id : Int) (res : Res)
  | queryOwn (id : Int) (res : Res)
  | queryMerge (id : Int) (res : Res)
  | noActivity (id : Int)

def sql (table : String) (id : Int) : String :=
  "select * from " ++ table ++ " where server_id = " ++ toString id ++ ";"

/-- The text that comes with false. -/
def Failure.message (dump : Res → String) : Failure → String
  | .isCross => "can`t use GetGameNodeInfoByDatabase is cross"
  | .isGame => "can`t use _GetCrossNodeInfoByDatabase is game"
  | .sameServerId key value =>
      "cross:" ++ String.ofList key ++ " can not use same server_id:" ++
        String.ofList value.tostring
  | .notStartup key value =>
      "cross:" ++ String.ofList key ++
        " is not startup in database table:cross_server server_id:" ++
        (value.elim "nil" fun value => String.ofList value.tostring)
  | .query table id res => "query:" ++ sql table id ++ " database error! res:" ++ dump res
  | .queryOwn id res => "query:" ++ sql "cross_server" id ++ " database error!, res:" ++ dump res
  | .queryMerge id res =>
      "query merge server:" ++ sql "game_server" id ++ " database error! res:" ++ dump res
  | .noActivity id => "server_id:" ++ toString id ++ " not cross activity startup"

/-- How a call ends that does not return true. -/
inductive Fault where
  | raised
  | failed (failure : Failure)

/-- A node of `dpcluster`: an address, or one for each server. -/
inductive Node where
  | addr (ipport : Name)
  | hosts (table : List (Int × Name))

abbrev Cluster := List (Name × Node)

section Parts

/-- The part of the name of a `_serverid` column that is before its first `_serverid`. -/
def serveridOf (key : Name) : Option Name :=
  if endswith key serverid then (find serverid key).map key.take else none

/-- The part of the name of an `is_startup_` column that is after it. -/
def startupOf (key : Name) : Option Name :=
  if beginswith key isStartup then
    (find isStartup key).map fun sIdx => key.drop (sIdx + isStartup.length)
  else none

/-- `%d` of a value. -/
def formatD : Value → Except Fault Int
  | .int n => .ok n
  | .text _ => .error .raised

/-- Two columns of a row, with a colon between them. -/
def ipport (row : Row) (ip port : Name) : Except Fault Name :=
  match row.get ip, row.get port with
  | some ip, some port => .ok (ip.tostring ++ ':' :: port.tostring)
  | _, _ => .error .raised

def nodeIpport (row : Row) : Except Fault Name :=
  ipport row "node_ip".toList "node_port".toList

/-- The first row of an answer, which is not looked for before it is used. -/
def firstRow (res : Res) (failure : Failure) : Except Fault Row :=
  match res with
  | .badresult => .error (.failed failure)
  | .rows (row :: _) => .ok row
  | .rows [] => .error .raised

/-- The row of an answer that has one row. -/
def onlyRow (res : Res) (failure : Failure) : Except Fault Row :=
  match res with
  | .rows [row] => .ok row
  | _ => .error (.failed failure)

/-- The address of a cross server that has started what its column is for. -/
def startedIpport (crossData : Row) (startNodeCol : Name) (failure : Failure) :
    Except Fault Name := do
  let nodeIpport ← nodeIpport crossData
  if crossData.get startNodeCol = some (.int 1) then
    return nodeIpport
  else
    throw (.failed failure)

end Parts

section Game

/-- What is read of an entry of `CROSS_NAMED_SERVER_NODE`. -/
structure Named where
  node : Name
  servercross : Bool

/-- The last service in the order of the loop that has this node. -/
def namedData (services : List Named) (cNode : Name) : Option Named :=
  services.foldl (fun found named => if named.node = cNode then some named else found) none

def isServercross (services : List Named) (cNode : Name) : Bool :=
  (namedData services cNode).any Named.servercross

variable (db : Db) (services : List Named) (hostId : Int)

/-- A column of the own row. -/
def ownColumn (dpcluster : Cluster) (col : Name × Value) : Except Fault Cluster :=
  match serveridOf col.1 with
  | none => .ok dpcluster
  | some x =>
      if col.2 = .int hostId then
        .error (.failed (.sameServerId col.1 col.2))
      else do
        let id ← formatD col.2
        let crossData ← firstRow (db.crossServer id) (.query "cross_server" id (db.crossServer id))
        let ipport ← startedIpport crossData (isStartup ++ x) (.notStartup col.1 (some col.2))
        if isServercross services (x ++ node) then
          return Assoc.put dpcluster (x ++ node) (.hosts [(hostId, ipport)])
        else
          return Assoc.put dpcluster (x ++ node) (.addr ipport)

/-- The assignment `dpcluster[cNode][_server_id] = node_ipport`. -/
def addHost (dpcluster : Cluster) (cNode : Name) (id : Int) (ipport : Name) :
    Except Fault Cluster :=
  match dpcluster.lookup cNode with
  | some (.hosts table) => .ok (Assoc.put dpcluster cNode (.hosts (Assoc.put table id ipport)))
  | _ => .error .raised

/-- A column of the own row, for a merged server with the row `data`. -/
def mergedColumn (serverId : Int) (data : Row) (dpcluster : Cluster) (col : Name × Value) :
    Except Fault Cluster :=
  match serveridOf col.1 with
  | none => .ok dpcluster
  | some x => do
      let id ← formatD col.2
      let crossData ← onlyRow (db.crossServer id) (.query "cross_server" id (db.crossServer id))
      let ipport ← startedIpport crossData (isStartup ++ x) (.notStartup col.1 (data.get col.1))
      if isServercross services (x ++ node) then
        addHost dpcluster (x ++ node) serverId ipport
      else
        return dpcluster

/-- A merged server; `cols` are the columns of the own row in the order of the loop. -/
def mergedServer (cols : List (Name × Value)) (dpcluster : Cluster) (serverId : Int) :
    Except Fault Cluster :=
  if serverId ≠ hostId then
    match db.gameServer serverId with
    | .badresult => .error (.failed (.queryMerge serverId (db.gameServer serverId)))
    | .rows [data] => cols.foldlM (mergedColumn db services serverId data) dpcluster
    | .rows _ => .ok dpcluster
  else
    .ok dpcluster

/-- The lists are `CROSS_NAMED_SERVER_NODE` and `merge_hosts` in the order of their
loops. -/
def getGameNodeInfoByDatabase (isCrossserver : Bool) (snode : Name) (mergeHosts : List Int)
    (order : Assoc.PairsOrder (Name × Value)) : Except Fault Cluster :=
  if isCrossserver then
    .error (.failed .isCross)
  else do
    let own ← firstRow (db.gameServer hostId) (.query "game_server" hostId (db.gameServer hostId))
    let ipport ← ipport own (snode ++ "_node_ip".toList) (snode ++ "_node_port".toList)
    let dpcluster := Assoc.put (Assoc.put [] "node_ipport".toList (.addr ipport))
      (snode ++ node) (.addr ipport)
    let cols := order.visit own.cols
    let dpcluster ← cols.foldlM (ownColumn db services hostId) dpcluster
    mergeHosts.foldlM (mergedServer db services hostId cols) dpcluster

end Game

section Cross
variable (db : Db) (hostId : Int)

/-- A column of the own row of a cross server. -/
def crossColumn (own : Row) (ipport : Name) (dpcluster : Cluster) (col : Name × Value) :
    Except Fault Cluster :=
  match startupOf col.1 with
  | some x =>
      if col.2 = .int 1 then
        if own.get (x ++ serverid) = none ∨ own.get (x ++ serverid) = some (.int hostId) then
          .ok (Assoc.put dpcluster (x ++ node) (.addr ipport))
        else
          .ok dpcluster
      else
        .ok dpcluster
  | none =>
      match serveridOf col.1 with
      | some x =>
          if col.2 ≠ .int hostId then do
            let id ← formatD col.2
            let crossData ← onlyRow (db.crossServer id)
              (.query "cross_server" id (db.crossServer id))
            let ipport ← startedIpport crossData (isStartup ++ x) (.notStartup col.1 (some col.2))
            return Assoc.put dpcluster (x ++ node) (.addr ipport)
          else
            .ok dpcluster
      | none => .ok dpcluster

def getCrossNodeInfoByDatabase (isCrossserver : Bool) (order : Assoc.PairsOrder (Name × Value)) :
    Except Fault Cluster :=
  if !isCrossserver then
    .error (.failed .isGame)
  else do
    let own ← onlyRow (db.crossServer hostId) (.queryOwn hostId (db.crossServer hostId))
    let ipport ← nodeIpport own
    let dpcluster ← (order.visit own.cols).foldlM (crossColumn db hostId own ipport)
      [("node_ipport".toList, .addr ipport)]
    if dpcluster.length ≤ 1 then
      throw (.failed (.noActivity hostId))
    else
      return dpcluster

end Cross

section Names
variable {key x : Name}

theorem serveridOf_isSome (part : serveridOf key = some x) : serverid <:+ key := by
  rw [serveridOf] at part
  split at part
  case isTrue last => exact endswith_iff.mp last
  case isFalse => cases part

theorem startupOf_eq : startupOf key = some x ↔ key = isStartup ++ x := by
  rw [startupOf]
  constructor
  · intro part
    split at part
    case isTrue begins =>
        have first := find_zero.mpr (beginswith_iff.mp begins)
        obtain ⟨rest, rfl⟩ := beginswith_iff.mp begins
        rw [first, Option.map_some, Nat.zero_add, List.drop_left] at part
        rw [Option.some.inj part]
    case isFalse => cases part
  · rintro rfl
    have begins : isStartup <+: isStartup ++ x := List.prefix_append isStartup x
    rw [if_pos (beginswith_iff.mpr begins), find_zero.mpr begins, Option.map_some, Nat.zero_add,
      List.drop_left]

theorem startupOf_none : startupOf key = none ↔ ¬ isStartup <+: key := by
  constructor
  · rintro none ⟨x, rfl⟩
    rw [startupOf_eq.mpr rfl] at none
    cases none
  · intro other
    rw [startupOf, if_neg fun begins => other (beginswith_iff.mp begins)]

/-- A name in which `_serverid` stands only at the end. -/
def SuffixOnly (key : Name) : Prop :=
  ∀ pre post, key = pre ++ serverid ++ post → post = []

theorem suffixOnly_iff : SuffixOnly key ↔ ¬ serverid <:+: key.dropLast := by
  constructor
  · rintro only ⟨pre, post, split⟩
    cases List.eq_nil_or_concat key with
    | inl empty =>
        subst empty
        have nothing := (List.append_eq_nil_iff.mp (List.append_eq_nil_iff.mp split).1).2
        exact absurd nothing (by decide)
    | inr last =>
        obtain ⟨rest, c, rfl⟩ := last
        rw [List.concat_eq_append, List.dropLast_concat] at split
        have nothing := only pre (post ++ [c]) (by rw [← split]; simp)
        simp at nothing
  · intro absent pre post split
    by_contra some
    refine absent ⟨pre, post.dropLast, ?_⟩
    rw [split, List.dropLast_append_of_ne_nil some]

instance : Decidable (SuffixOnly key) := decidable_of_iff _ suffixOnly_iff.symm

theorem serveridOf_eq (only : SuffixOnly key) : serveridOf key = some x ↔ key = x ++ serverid := by
  rw [serveridOf]
  constructor
  · intro part
    split at part
    case isTrue last =>
        obtain ⟨y, rfl⟩ := endswith_iff.mp last
        rw [find_append_of_last only, Option.map_some, List.take_left] at part
        rw [Option.some.inj part]
    case isFalse => cases part
  · rintro rfl
    have last : serverid <:+ x ++ serverid := List.suffix_append x serverid
    rw [if_pos (endswith_iff.mpr last), find_append_of_last only, Option.map_some, List.take_left]

end Names

end Qiuqiu.Nodeinfo
