import Qiuqiu.Nodeinfo.Model

/-!
The addresses that a game server keeps for the servers merged into it. For each of
them the loop goes over the columns of the own row, and asks for the cross servers
that stand in the own row: the row of the merged server is read for a message only.
-/
namespace Qiuqiu.Nodeinfo
open Loop
variable {game cross : Table} {services : List Named} {hostId : Int}

/-- The value of `dpcluster[cNode][id]`. -/
def hostAddr (dpcluster : Cluster) (cNode : Name) (id : Int) : Option Name :=
  match dpcluster.lookup cNode with
  | some (.hosts table) => table.lookup id
  | _ => none

/-- The address of a row of `cross_server` by its `server_id`. -/
def crossAddress (cross : Table) (id : Int) : Option Name :=
  match cross.select id with
  | [row] => (nodeIpport row).toOption
  | _ => none

/-- The cross server that a column names for an activity. -/
def valueFor (x : Name) (col : Name × Value) : Option Int :=
  if serveridOf col.1 = some x then (formatD col.2).toOption else none

section Steps
variable {dp dp' : Cluster} {col : Name × Value} {serverId : Int} {data : Row}

theorem crossAddress_eq {id : Int} {ipport : Name} :
    crossAddress cross id = some ipport ↔
      ∃ row, cross.select id = [row] ∧ nodeIpport row = .ok ipport := by
  rw [crossAddress]
  constructor
  · intro found
    split at found
    case h_1 row one =>
        refine ⟨row, one, ?_⟩
        cases address : nodeIpport row with
        | ok ipport' =>
            rw [address] at found
            rw [Option.some.inj found]
        | error e =>
            rw [address] at found
            cases found
    case h_2 => cases found
  · rintro ⟨row, one, address⟩
    rw [one]
    simp only [address, Except.toOption]

theorem onlyRow_ok {res : Res} {failure : Failure} {row : Row}
    (found : onlyRow res failure = .ok row) : res = .rows [row] := by
  unfold onlyRow at found
  split at found
  · cases found
    rfl
  · cases found

theorem onlyRow_cross {id : Int} {failure : Failure} {row : Row}
    (found : onlyRow ((answers game cross).crossServer id) failure = .ok row) :
    cross.select id = [row] := by
  have rows := onlyRow_ok found
  injection rows

theorem startedIpport_ok {crossData : Row} {startNodeCol ipport : Name} {failure : Failure} :
    startedIpport crossData startNodeCol failure = .ok ipport ↔
      nodeIpport crossData = .ok ipport ∧ crossData.get startNodeCol = some (.int 1) := by
  rw [startedIpport, bind_ok]
  constructor
  · rintro ⟨ipport', address, tested⟩
    split at tested
    case isTrue started =>
        cases tested
        exact ⟨address, started⟩
    case isFalse => cases tested
  · rintro ⟨address, started⟩
    refine ⟨ipport, address, ?_⟩
    rw [if_pos started]
    rfl

/-- A column that is asked for finds the address of its server. -/
theorem crossAddress_of_started {id : Int} {failure failure' : Failure} {row : Row}
    {startNodeCol ipport : Name}
    (found : onlyRow ((answers game cross).crossServer id) failure = .ok row)
    (started : startedIpport row startNodeCol failure' = .ok ipport) :
    crossAddress cross id = some ipport :=
  crossAddress_eq.mpr ⟨row, onlyRow_cross found, (startedIpport_ok.mp started).1⟩

/-- The address stands at the server that it is added for. -/
theorem addHost_ok {cNode : Name} {ipport : Name}
    (added : addHost dp cNode serverId ipport = .ok dp') (cNode' : Name) (id : Int) :
    hostAddr dp' cNode' id =
      if cNode' = cNode ∧ id = serverId then some ipport else hostAddr dp cNode' id := by
  rw [addHost] at added
  split at added
  case h_1 table held =>
      cases added
      rw [hostAddr, hostAddr, Assoc.lookup_put]
      by_cases here : cNode' = cNode
      · subst here
        simp only [if_true, true_and, held, Assoc.lookup_put]
      · simp only [here, false_and, if_false]
  case h_2 => cases added

/-- A column for a merged server: the cross server of the own row is asked. -/
theorem mergedColumn_ok
    (moved : mergedColumn (answers game cross) services serverId data dp col = .ok dp')
    (x : Name) (id : Int) :
    hostAddr dp' (x ++ node) id =
      if isServercross services (x ++ node) = true ∧ id = serverId then
        ((valueFor x col).bind (crossAddress cross)).or (hostAddr dp (x ++ node) id)
      else hostAddr dp (x ++ node) id := by
  rw [mergedColumn] at moved
  split at moved
  case h_1 other =>
      cases moved
      simp [valueFor, other]
  case h_2 y part =>
      simp only [bind_ok] at moved
      obtain ⟨n, number, crossData, row, ipport, started, moved⟩ := moved
      have address := crossAddress_of_started row started
      by_cases here : y = x
      · subst here
        have named : valueFor y col = some n := by
          rw [valueFor, if_pos part, number]
          rfl
        rw [named, Option.bind_some, address, Option.some_or]
        split at moved
        case isTrue servercross =>
            rw [addHost_ok moved]
            simp [servercross]
        case isFalse servercross =>
            cases moved
            simp [servercross]
      · have silent : valueFor x col = none := by
          rw [valueFor, if_neg]
          rw [part]
          simpa using here
        have apart : x ++ node ≠ y ++ node := by
          intro same
          exact here (List.append_cancel_right same).symm
        rw [silent, Option.bind_none, Option.none_or, ite_self]
        split at moved
        · rw [addHost_ok moved, if_neg fun both => apart both.1]
        · cases moved
          rfl

/-- Every column that names a cross server finds its row. -/
theorem mergedColumn_address
    (moved : mergedColumn (answers game cross) services serverId data dp col = .ok dp')
    {x : Name} {n : Int} (named : valueFor x col = some n) :
    ∃ ipport, crossAddress cross n = some ipport := by
  rw [valueFor] at named
  split at named
  case isTrue part =>
      simp only [mergedColumn, part, bind_ok] at moved
      obtain ⟨n', number, crossData, row, ipport, started, -⟩ := moved
      rw [number] at named
      cases named
      exact ⟨ipport, crossAddress_of_started row started⟩
  case isFalse => cases named

/-- The own columns keep addresses for the own server only. -/
theorem ownColumn_ok (moved : ownColumn (answers game cross) services hostId dp col = .ok dp')
    (cNode : Name) {id : Int} (other : id ≠ hostId) (none : hostAddr dp cNode id = none) :
    hostAddr dp' cNode id = Option.none := by
  rw [ownColumn] at moved
  split at moved
  case h_1 =>
      cases moved
      exact none
  case h_2 x part =>
      by_cases same : col.2 = .int hostId
      · rw [if_pos same] at moved
        cases moved
      · simp only [if_neg same, bind_ok] at moved
        obtain ⟨n, -, crossData, -, ipport, -, moved⟩ := moved
        split at moved
        all_goals
          cases moved
          rw [hostAddr, Assoc.lookup_put]
          by_cases here : cNode = x ++ node
          · simp [here, List.lookup_cons, beq_eq_false_iff_ne.mpr other]
          · rw [if_neg here]
            exact none

end Steps

section Passes
variable {dp dp' : Cluster} {cols : List (Name × Value)} {serverId : Int} {data : Row}

/-- One pass over the own columns: the last one for the activity decides. -/
theorem mergedColumns_ok
    (run : cols.foldlM (mergedColumn (answers game cross) services serverId data) dp = .ok dp')
    (x : Name) (id : Int) :
    hostAddr dp' (x ++ node) id =
      if isServercross services (x ++ node) = true ∧ id = serverId then
        ((lastSome (valueFor x) cols).bind (crossAddress cross)).or (hostAddr dp (x ++ node) id)
      else hostAddr dp (x ++ node) id := by
  refine foldlM_invariant
    (fun done dp' => hostAddr dp' (x ++ node) id =
      if isServercross services (x ++ node) = true ∧ id = serverId then
        ((lastSome (valueFor x) done).bind (crossAddress cross)).or (hostAddr dp (x ++ node) id)
      else hostAddr dp (x ++ node) id) ?_ ?_ run
  · simp [lastSome]
  · intro done col dp₁ dp₂ holds moved
    rw [mergedColumn_ok moved x id, holds]
    by_cases writes : isServercross services (x ++ node) = true ∧ id = serverId
    · simp only [if_pos writes, lastSome_snoc]
      cases named : valueFor x col with
      | none => simp
      | some n =>
          obtain ⟨ipport, address⟩ := mergedColumn_address moved named
          simp [address]
    · simp only [if_neg writes]

/-- The pass for one merged server. -/
theorem mergedServer_ok
    (run : mergedServer (answers game cross) services hostId cols dp serverId = .ok dp')
    {sid : Int} (other : sid ≠ hostId) (one : game.select sid = [data]) (x : Name) :
    hostAddr dp' (x ++ node) sid =
      if isServercross services (x ++ node) = true ∧ sid = serverId then
        ((lastSome (valueFor x) cols).bind (crossAddress cross)).or (hostAddr dp (x ++ node) sid)
      else hostAddr dp (x ++ node) sid := by
  by_cases here : sid = serverId
  · subst here
    have found : (answers game cross).gameServer sid = .rows [data] :=
      congrArg Res.rows one
    simp only [mergedServer, if_pos other, found] at run
    exact mergedColumns_ok run x sid
  · simp only [here, and_false, if_false]
    unfold mergedServer at run
    split at run
    · split at run
      · cases run
      · rw [mergedColumns_ok run x sid, if_neg fun both => here both.2]
      · cases run
        rfl
    · cases run
      rfl

theorem mergedServers_ok {mergeHosts : List Int}
    (run : mergeHosts.foldlM (mergedServer (answers game cross) services hostId cols) dp = .ok dp')
    {sid : Int} (other : sid ≠ hostId) (one : game.select sid = [data]) (x : Name) :
    hostAddr dp' (x ++ node) sid =
      if isServercross services (x ++ node) = true ∧ sid ∈ mergeHosts then
        ((lastSome (valueFor x) cols).bind (crossAddress cross)).or (hostAddr dp (x ++ node) sid)
      else hostAddr dp (x ++ node) sid := by
  refine foldlM_invariant
    (fun done dp' => hostAddr dp' (x ++ node) sid =
      if isServercross services (x ++ node) = true ∧ sid ∈ done then
        ((lastSome (valueFor x) cols).bind (crossAddress cross)).or (hostAddr dp (x ++ node) sid)
      else hostAddr dp (x ++ node) sid) ?_ ?_ run
  · simp
  · intro done serverId dp₁ dp₂ holds moved
    rw [mergedServer_ok moved other one x, holds]
    by_cases servercross : isServercross services (x ++ node) = true
    · by_cases here : sid = serverId
      · subst here
        cases (lastSome (valueFor x) cols).bind (crossAddress cross) with
        | none => simp
        | some ipport => simp [servercross]
      · simp [servercross, here]
    · simp [servercross]

theorem ownColumns_ok
    (run : cols.foldlM (ownColumn (answers game cross) services hostId) dp = .ok dp')
    (cNode : Name) {id : Int} (other : id ≠ hostId) (none : hostAddr dp cNode id = none) :
    hostAddr dp' cNode id = Option.none := by
  refine foldlM_invariant (fun _ dp' => hostAddr dp' cNode id = Option.none) none ?_ run
  intro done col dp₁ dp₂ holds moved
  exact ownColumn_ok moved cNode other holds

end Passes

section Routing
variable {isCrossserver : Bool} {snode : Name} {mergeHosts : List Int}
  {order : Assoc.PairsOrder (Name × Value)} {dp : Cluster} {sid : Int} {data : Row} {x : Name}

/-- The own row is the one that `server_id` selects. -/
theorem firstRow_select {id : Int} {failure : Failure} {row : Row}
    (found : firstRow (.rows (game.select id)) failure = .ok row) : game.select id = [row] := by
  have nodup : ((game.select id).map Row.serverId).Nodup :=
    game.primary.sublist (List.filter_sublist.map _)
  have same : ∀ r ∈ game.select id, r.serverId = some (.int id) := by
    intro r mem
    exact of_decide_eq_true (List.mem_filter.mp mem).2
  cases rows : game.select id with
  | nil =>
      rw [rows] at found
      cases found
  | cons first rest =>
      rw [rows] at found nodup same
      cases found
      cases rest with
      | nil => rfl
      | cons second rest =>
          have equal : row.serverId = second.serverId :=
            (same row (by simp)).trans (same second (by simp)).symm
          simp [equal] at nodup

/-- What the function leaves for a merged server with a row of its own. -/
theorem hostAddr_merged
    (run : getGameNodeInfoByDatabase (answers game cross) services hostId isCrossserver snode
      mergeHosts order = .ok dp)
    (mem : sid ∈ mergeHosts) (other : sid ≠ hostId) (one : game.select sid = [data]) (x : Name) :
    ∃ own, game.select hostId = [own] ∧
      hostAddr dp (x ++ node) sid =
        if isServercross services (x ++ node) = true then
          (lastSome (valueFor x) (order.visit own.cols)).bind (crossAddress cross)
        else none := by
  unfold getGameNodeInfoByDatabase at run
  split at run
  · cases run
  · simp only [bind_ok] at run
    obtain ⟨own, first, ipport, -, dp₁, ownPass, merged⟩ := run
    refine ⟨own, firstRow_select first, ?_⟩
    have before : hostAddr dp₁ (x ++ node) sid = none := by
      refine ownColumns_ok ownPass _ other ?_
      rw [hostAddr, Assoc.lookup_put, Assoc.lookup_put]
      split
      case h_1 table held =>
          split at held
          · cases held
          · split at held
            · cases held
            · cases held
      case h_2 => rfl
    rw [mergedServers_ok merged other one x, before, Option.or_none]
    simp [mem]

/-- The merged server reaches the cross server that its own row names. -/
def RoutedByRow (cross : Table) (dpcluster : Cluster) (sid : Int) (data : Row) (x : Name) : Prop :=
  ∃ v ipport, data.get (x ++ serverid) = some (.int v) ∧ crossAddress cross v = some ipport ∧
    hostAddr dpcluster (x ++ node) sid = some ipport

/-- The last of the own columns for the activity names a cross server with the address
of the one in the row of the merged server. -/
def SameAddress (cross : Table) (cols : List (Name × Value)) (data : Row) (x : Name) : Prop :=
  ∃ v n ipport, data.get (x ++ serverid) = some (.int v) ∧
    lastSome (valueFor x) cols = some n ∧
    crossAddress cross v = some ipport ∧ crossAddress cross n = some ipport

/-- A merged server reaches the cross server of its own row exactly when the own row of
the host names one with the same address, and the service found for the node is kept
by server. -/
theorem routedByRow_iff
    (run : getGameNodeInfoByDatabase (answers game cross) services hostId isCrossserver snode
      mergeHosts order = .ok dp)
    (mem : sid ∈ mergeHosts) (other : sid ≠ hostId) (one : game.select sid = [data]) (x : Name) :
    RoutedByRow cross dp sid data x ↔
      isServercross services (x ++ node) = true ∧
        ∃ own, game.select hostId = [own] ∧ SameAddress cross (order.visit own.cols) data x := by
  obtain ⟨own, self, value⟩ := hostAddr_merged run mem other one x
  rw [RoutedByRow, value]
  constructor
  · rintro ⟨v, ipport, column, address, routed⟩
    split at routed
    case isTrue servercross =>
        obtain ⟨n, last, routed⟩ := Option.bind_eq_some_iff.mp routed
        exact ⟨servercross, own, self, v, n, ipport, column, last, address, routed⟩
    case isFalse => cases routed
  · rintro ⟨servercross, own', self', v, n, ipport, column, last, address, same⟩
    rw [self] at self'
    cases self'
    refine ⟨v, ipport, column, address, ?_⟩
    rw [if_pos servercross, last, Option.bind_some]
    exact same

/-- A row of `game_server`. -/
def gameRow (id cServerid : Int) : Row where
  cols := [("server_id".toList, .int id), ("main_node_ip".toList, .text "10.0.0.9".toList),
    ("main_node_port".toList, .int 7000), ("c_serverid".toList, .int cServerid)]
  keyed := by
    simp only [Assoc.Keyed, List.map_cons, List.map_nil]
    decide
  serverids := by
    have text : ¬ serverid <:+ "main_node_ip".toList := by decide
    intro x mem last
    simp only [List.mem_cons, List.not_mem_nil, or_false] at mem
    obtain rfl | rfl | rfl | rfl := mem
    · rfl
    · exact absurd last text
    · rfl
    · rfl

/-- A row of `cross_server` that has started the activity. -/
def crossRow (id : Int) (ip : Name) : Row where
  cols := [("server_id".toList, .int id), ("node_ip".toList, .text ip),
    ("node_port".toList, .int 9000), ("is_startup_c".toList, .int 1)]
  keyed := by
    simp only [Assoc.Keyed, List.map_cons, List.map_nil]
    decide
  serverids := by
    have text : ¬ serverid <:+ "node_ip".toList := by decide
    intro x mem last
    simp only [List.mem_cons, List.not_mem_nil, or_false] at mem
    obtain rfl | rfl | rfl | rfl := mem
    · rfl
    · exact absurd last text
    · rfl
    · rfl

def twoCross : Table where
  rows := [crossRow 55001 "10.0.0.1".toList, crossRow 55002 "10.0.0.2".toList]
  primary := by decide

/-- Server 1 and server 2, which is merged into it. -/
def twoGame (cServerid : Int) : Table where
  rows := [gameRow 1 55001, gameRow 2 cServerid]
  primary := by simp [gameRow, Row.serverId, Row.get]

def cNamed : List Named := [⟨"c_node".toList, true⟩]

theorem routedByRow_same_cross :
    ∃ dp, getGameNodeInfoByDatabase (answers (twoGame 55001) twoCross) cNamed 1 false
        "main".toList [1, 2] .asStored = .ok dp ∧
      RoutedByRow twoCross dp 2 (gameRow 2 55001) "c".toList := by
  have run : getGameNodeInfoByDatabase (answers (twoGame 55001) twoCross) cNamed 1 false
      "main".toList [1, 2] .asStored = .ok _ := rfl
  refine ⟨_, run, (routedByRow_iff run (by decide) (by decide) rfl _).mpr ?_⟩
  exact ⟨by decide, gameRow 1 55001, rfl, 55001, 55001, "10.0.0.1:9000".toList, by decide,
    by decide, by decide, by decide⟩

theorem not_routedByRow_other_cross :
    ∃ dp, getGameNodeInfoByDatabase (answers (twoGame 55002) twoCross) cNamed 1 false
        "main".toList [1, 2] .asStored = .ok dp ∧
      (twoGame 55002).select 2 = [gameRow 2 55002] ∧
      (gameRow 2 55002).get "c_serverid".toList = some (.int 55002) ∧
      crossAddress twoCross 55002 = some "10.0.0.2:9000".toList ∧
      hostAddr dp "c_node".toList 2 = some "10.0.0.1:9000".toList ∧
      ¬ RoutedByRow twoCross dp 2 (gameRow 2 55002) "c".toList := by
  have column : (gameRow 2 55002).get "c_serverid".toList = some (.int 55002) := by decide
  have address : crossAddress twoCross 55002 = some "10.0.0.2:9000".toList := by decide
  refine ⟨_, rfl, rfl, column, address, by decide, ?_⟩
  rintro ⟨v, ipport, column', address', routed⟩
  cases column.symm.trans column'
  rw [address] at address'
  cases address'
  exact absurd routed (by decide)

end Routing

end Qiuqiu.Nodeinfo
