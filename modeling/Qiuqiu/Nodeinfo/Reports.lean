import Qiuqiu.Nodeinfo.Model

/-!
How `GetGameNodeInfoByDatabase` ends (lualib/base/nodeinfo.lua). Between two queries the
database may change, so every query has an answer of its own. The function takes the first
row of an answer before it looks whether there is one, and puts the columns of an address
together before it looks whether they are there: it raises there, with the connection open.
-/
namespace Qiuqiu.Nodeinfo.Reports
open Loop

inductive Query where
  | gameServer (id : Int)
  | crossServer (id : Int)

/-- The answer to a query, by the number of queries before it. -/
abbrev Answers := Nat → Query → Res

structure Config where
  isCrossserver : Bool
  snode : Name
  hostId : Int
  /-- `CROSS_NAMED_SERVER_NODE` in the order of the loop. -/
  services : List Named
  /-- `merge_hosts` in the order of the loop. -/
  mergeHosts : List Int
  order : Assoc.PairsOrder (Name × Value)

/-- What has been found, and the number of queries. -/
abbrev Progress := Cluster × Nat

section Code
variable (answer : Answers) (cfg : Config)

/-- A column of the own row. -/
def ownColumn (progress : Progress) (col : Name × Value) : Except Fault Progress :=
  let (dpcluster, asked) := progress
  match serveridOf col.1 with
  | none => .ok (dpcluster, asked)
  | some x =>
      if col.2 = .int cfg.hostId then
        .error (.failed (.sameServerId col.1 col.2))
      else do
        let id ← formatD col.2
        let cres := answer asked (.crossServer id)
        let crossData ← firstRow cres (.query "cross_server" id cres)
        let ipport ← startedIpport crossData (isStartup ++ x) (.notStartup col.1 (some col.2))
        if isServercross cfg.services (x ++ node) then
          return (Assoc.put dpcluster (x ++ node) (.hosts [(cfg.hostId, ipport)]), asked + 1)
        else
          return (Assoc.put dpcluster (x ++ node) (.addr ipport), asked + 1)

/-- A column of the own row, for a merged server with the row `data`. -/
def mergedColumn (serverId : Int) (data : Row) (progress : Progress) (col : Name × Value) :
    Except Fault Progress :=
  let (dpcluster, asked) := progress
  match serveridOf col.1 with
  | none => .ok (dpcluster, asked)
  | some x => do
      let id ← formatD col.2
      let cres := answer asked (.crossServer id)
      let crossData ← onlyRow cres (.query "cross_server" id cres)
      let ipport ← startedIpport crossData (isStartup ++ x) (.notStartup col.1 (data.get col.1))
      if isServercross cfg.services (x ++ node) then do
        let dpcluster ← addHost dpcluster (x ++ node) serverId ipport
        return (dpcluster, asked + 1)
      else
        return (dpcluster, asked + 1)

def mergedServer (cols : List (Name × Value)) (progress : Progress) (serverId : Int) :
    Except Fault Progress :=
  if serverId ≠ cfg.hostId then
    let (dpcluster, asked) := progress
    match answer asked (.gameServer serverId) with
    | .badresult => .error (.failed (.queryMerge serverId .badresult))
    | .rows [data] => cols.foldlM (mergedColumn answer cfg serverId data) (dpcluster, asked + 1)
    | .rows _ => .ok (dpcluster, asked + 1)
  else
    .ok progress

/-- `_GetGameNodeInfoByDatabase(db)`. -/
def getGameNodeInfo : Except Fault Cluster :=
  if cfg.isCrossserver then
    .error (.failed .isCross)
  else do
    let gres := answer 0 (.gameServer cfg.hostId)
    let own ← firstRow gres (.query "game_server" cfg.hostId gres)
    let ipport ← ipport own (cfg.snode ++ "_node_ip".toList) (cfg.snode ++ "_node_port".toList)
    let dpcluster := Assoc.put (Assoc.put [] "node_ipport".toList (.addr ipport))
      (cfg.snode ++ node) (.addr ipport)
    let cols := cfg.order.visit own.cols
    let progress ← cols.foldlM (ownColumn answer cfg) (dpcluster, 1)
    let progress ← cfg.mergeHosts.foldlM (mergedServer answer cfg cols) progress
    return progress.1

/-- How the call ends, and how often it has disconnected the object of the database. -/
structure Ending where
  /-- `none` when it has raised, else what comes with true, or the text that comes with false. -/
  result : Option (Except String Cluster)
  disconnects : Nat

/-- `GetGameNodeInfoByDatabase()`. Where no connection is made, `mysql.connect` raises. -/
def getGameNodeInfoByDatabase (dump : Res → String) (connected : Bool) : Ending :=
  if connected then
    match getGameNodeInfo answer cfg with
    | .ok dpcluster => ⟨some (.ok dpcluster), 1⟩
    | .error (.failed failure) => ⟨some (.error (failure.message dump)), 1⟩
    | .error .raised => ⟨none, 0⟩
  else ⟨none, 0⟩

end Code

section Spec

/-- The call has returned, and the object is disconnected if there was a connection. -/
def Reported (connected : Bool) (ending : Ending) : Prop :=
  ending.result ≠ none ∧ (connected = true → ending.disconnects = 1)

/-- What the answer to a query lets the function do: go on, return false, or raise. -/
inductive Verdict where
  | passes
  | stops
  | breaks
  deriving DecidableEq

/-- The first verdict that ends the function. -/
def ending : List Verdict → Verdict
  | [] => .passes
  | .passes :: verdicts => ending verdicts
  | verdict :: _ => verdict

def hasAddress (row : Row) (ip port : Name) : Bool := (row.get ip).isSome && (row.get port).isSome

/-- A row of `cross_server` needs both columns of its address, and the activity started. -/
def rowVerdict (row : Row) (x : Name) : Verdict :=
  if hasAddress row "node_ip".toList "node_port".toList then
    if row.get (isStartup ++ x) = some (.int 1) then .passes else .stops
  else .breaks

/-- The verdict on a cross server that a column of the own row names for an activity. -/
def ownVerdict (hostId : Int) (named : Name × Int) (cres : Res) : Verdict :=
  if named.2 = hostId then .stops
  else
    match cres with
    | .badresult => .stops
    | .rows [] => .breaks
    | .rows (row :: _) => rowVerdict row named.1

/-- The same for a merged server, where other answers than one row are refused. -/
def mergedVerdict (named : Name × Int) : Res → Verdict
  | .rows [row] => rowVerdict row named.1
  | _ => .stops

/-- The columns that name a cross server, with the activity and the number. -/
def serverids (cols : List (Name × Value)) : List (Name × Int) :=
  cols.filterMap fun col =>
    match serveridOf col.1, col.2 with
    | some x, .int id => some (x, id)
    | _, _ => none

variable (answer : Answers) (cfg : Config)

/-- One query for each of the columns, from a number of queries on. -/
def columnVerdicts (verdict : Name × Int → Res → Verdict) : Nat → List (Name × Int) → List Verdict
  | _, [] => []
  | asked, named :: ids =>
      verdict named (answer asked (.crossServer named.2)) ::
        columnVerdicts verdict (asked + 1) ids

/-- The answers for the merged servers, from a number of queries on. -/
def mergedVerdicts (ids : List (Name × Int)) : Nat → List Int → List Verdict
  | _, [] => []
  | asked, serverId :: servers =>
      if serverId ≠ cfg.hostId then
        match answer asked (.gameServer serverId) with
        | .badresult => [.stops]
        | .rows [_] => columnVerdicts answer mergedVerdict (asked + 1) ids ++
            mergedVerdicts ids (asked + 1 + ids.length) servers
        | .rows _ => mergedVerdicts ids (asked + 1) servers
      else mergedVerdicts ids asked servers

/-- What the answers let the function do, in the order of the queries. -/
def verdicts : List Verdict :=
  if cfg.isCrossserver then [.stops]
  else
    match answer 0 (.gameServer cfg.hostId) with
    | .badresult => [.stops]
    | .rows [] => [.breaks]
    | .rows (own :: _) =>
        if hasAddress own (cfg.snode ++ "_node_ip".toList) (cfg.snode ++ "_node_port".toList) then
          let ids := serverids (cfg.order.visit own.cols)
          columnVerdicts answer (ownVerdict cfg.hostId) 1 ids ++
            mergedVerdicts answer cfg ids (1 + ids.length) cfg.mergeHosts
        else [.breaks]

end Spec

section Endings
variable {α β : Type}

/-- How a part of the function has ended. -/
def verdictOf : Except Fault α → Verdict
  | .ok _ => .passes
  | .error (.failed _) => .stops
  | .error .raised => .breaks

theorem verdictOf_bind {x : Except Fault α} {f : α → Except Fault β} (verdict : Verdict)
    (next : ∀ a, x = .ok a → verdictOf (f a) = verdict) :
    verdictOf (x >>= f) = if verdictOf x = .passes then verdict else verdictOf x := by
  cases x with
  | ok a => exact next a rfl
  | error fault =>
      cases fault with
      | raised => rfl
      | failed failure => rfl

theorem ending_cons (verdict : Verdict) (verdicts : List Verdict) :
    ending (verdict :: verdicts) = if verdict = .passes then ending verdicts else verdict := by
  cases verdict <;> rfl

theorem ending_append (verdicts more : List Verdict) :
    ending (verdicts ++ more) =
      if ending verdicts = .passes then ending more else ending verdicts := by
  induction verdicts with
  | nil => rfl
  | cons verdict verdicts ih =>
      rw [List.cons_append, ending_cons, ending_cons, ih]
      split
      · rfl
      · rfl

theorem verdictOf_ipport (row : Row) (ip port : Name) :
    verdictOf (ipport row ip port) = if hasAddress row ip port then .passes else .breaks := by
  unfold ipport hasAddress
  cases row.get ip with
  | none => rfl
  | some _ => cases row.get port <;> rfl

theorem ipport_raised {row : Row} {ip port : Name} (missing : ¬ hasAddress row ip port = true) :
    ipport row ip port = .error .raised := by
  unfold ipport
  split
  case h_1 found₁ found₂ => simp [hasAddress, found₁, found₂] at missing
  case h_2 => rfl

theorem verdictOf_startedIpport (row : Row) (x : Name) (failure : Failure) :
    verdictOf (startedIpport row (isStartup ++ x) failure) = rowVerdict row x := by
  unfold startedIpport
  rw [verdictOf_bind (if row.get (isStartup ++ x) = some (.int 1) then .passes else .stops)]
  · rw [nodeIpport, verdictOf_ipport, rowVerdict]
    cases hasAddress row "node_ip".toList "node_port".toList <;> rfl
  · intro ipport _
    split <;> rfl

end Endings

section Columns
variable {answer : Answers} {cfg : Config} {cols : List (Name × Value)} {col : Name × Value}
  {dp dp' : Cluster} {asked asked' : Nat} {x : Name} {id serverId : Int} {data : Row}

theorem ownColumn_named (part : serveridOf col.1 = some x) (value : col.2 = .int id) :
    verdictOf (ownColumn answer cfg (dp, asked) col) =
        ownVerdict cfg.hostId (x, id) (answer asked (.crossServer id)) ∧
      ∀ dp' asked', ownColumn answer cfg (dp, asked) col = .ok (dp', asked') →
        asked' = asked + 1 ∧ ∃ ipport, dp' = Assoc.put dp (x ++ node)
          (if isServercross cfg.services (x ++ node) then .hosts [(cfg.hostId, ipport)]
            else .addr ipport) := by
  simp only [ownColumn, part, value, Value.int.injEq, ownVerdict]
  by_cases own : id = cfg.hostId
  · simp only [if_pos own]
    exact ⟨rfl, fun _ _ => nofun⟩
  · simp only [if_neg own, formatD, ok_bind]
    cases answer asked (.crossServer id) with
    | badresult => exact ⟨rfl, fun _ _ => nofun⟩
    | rows rows =>
        cases rows with
        | nil => exact ⟨rfl, fun _ _ => nofun⟩
        | cons row rows =>
            simp only [firstRow, ok_bind]
            constructor
            · rw [verdictOf_bind .passes, verdictOf_startedIpport]
              · split
                case isTrue passes => exact passes.symm
                case isFalse => rfl
              · intro ipport _
                split <;> rfl
            · intro dp' asked' done
              rw [bind_ok] at done
              obtain ⟨ipport, -, done⟩ := done
              refine ⟨?_, ipport, ?_⟩
              · split at done <;> cases done <;> rfl
              · split at done
                case isTrue servercross =>
                    cases done
                    rw [if_pos servercross]
                case isFalse other =>
                    cases done
                    rw [if_neg other]

/-- The nodes of these columns that are kept by server have a table. -/
def Hosted (cfg : Config) (cols : List (Name × Value)) (dp : Cluster) : Prop :=
  ∀ col ∈ cols, ∀ x, serveridOf col.1 = some x → isServercross cfg.services (x ++ node) = true →
    ∃ table, dp.lookup (x ++ node) = some (.hosts table)

theorem Hosted.put {value : Node} {cNode : Name} (hosted : Hosted cfg cols dp)
    (kept : isServercross cfg.services cNode = true → ∃ table, value = .hosts table) :
    Hosted cfg cols (Assoc.put dp cNode value) := by
  intro col mem x part servercross
  rw [Assoc.lookup_put]
  by_cases here : x ++ node = cNode
  · subst here
    obtain ⟨table, rfl⟩ := kept servercross
    exact ⟨table, if_pos rfl⟩
  · rw [if_neg here]
    exact hosted col mem x part servercross

theorem mergedColumn_named (part : serveridOf col.1 = some x) (value : col.2 = .int id)
    (mem : col ∈ cols) (hosted : Hosted cfg cols dp) :
    verdictOf (mergedColumn answer cfg serverId data (dp, asked) col) =
        mergedVerdict (x, id) (answer asked (.crossServer id)) ∧
      ∀ dp' asked', mergedColumn answer cfg serverId data (dp, asked) col = .ok (dp', asked') →
        asked' = asked + 1 ∧ Hosted cfg cols dp' := by
  simp only [mergedColumn, part, value, formatD, ok_bind]
  by_cases one : ∃ row, answer asked (.crossServer id) = .rows [row]
  · obtain ⟨row, found⟩ := one
    simp only [found, onlyRow, ok_bind, mergedVerdict]
    have added : isServercross cfg.services (x ++ node) = true → ∀ ipport, ∃ table,
        addHost dp (x ++ node) serverId ipport = .ok (Assoc.put dp (x ++ node) (.hosts table)) := by
      intro servercross ipport
      obtain ⟨table, held⟩ := hosted col mem x part servercross
      exact ⟨Assoc.put table serverId ipport, by rw [addHost, held]⟩
    constructor
    · rw [verdictOf_bind .passes, verdictOf_startedIpport]
      · split
        case isTrue passes => exact passes.symm
        case isFalse => rfl
      · intro ipport _
        split
        case isTrue servercross =>
            obtain ⟨table, add⟩ := added servercross ipport
            rw [add, ok_bind]
            rfl
        case isFalse => rfl
    · intro dp' asked' done
      rw [bind_ok] at done
      obtain ⟨ipport, -, done⟩ := done
      split at done
      case isTrue servercross =>
          obtain ⟨table, add⟩ := added servercross ipport
          rw [add, ok_bind] at done
          cases done
          exact ⟨rfl, hosted.put fun _ => ⟨table, rfl⟩⟩
      case isFalse =>
          cases done
          exact ⟨rfl, hosted⟩
  · have refused : ∀ failure, onlyRow (answer asked (.crossServer id)) failure =
        .error (.failed failure) := by
      intro failure
      unfold onlyRow
      split
      case h_1 row found => exact absurd ⟨row, found⟩ one
      case h_2 => rfl
    have stops : mergedVerdict (x, id) (answer asked (.crossServer id)) = .stops := by
      unfold mergedVerdict
      split
      case h_1 row found => exact absurd ⟨row, found⟩ one
      case h_2 => rfl
    rw [refused, stops]
    refine ⟨rfl, ?_⟩
    intro dp' asked' done
    cases done

/-- The columns that name a server hold its number. -/
def Numbered (cols : List (Name × Value)) : Prop :=
  ∀ col ∈ cols, ∀ x, serveridOf col.1 = some x → ∃ id, col.2 = .int id

section Fold
variable {f : Progress → Name × Value → Except Fault Progress}
  {verdict : Name × Int → Res → Verdict}

/-- A loop over the columns ends with the first answer that ends it. -/
theorem foldColumns (inv : Cluster → Prop) (numbered : Numbered cols)
    (skip : ∀ col progress, serveridOf col.1 = none → f progress col = .ok progress)
    (step : ∀ col ∈ cols, ∀ dp asked x id, serveridOf col.1 = some x → col.2 = .int id → inv dp →
      verdictOf (f (dp, asked) col) = verdict (x, id) (answer asked (.crossServer id)) ∧
        ∀ dp' asked', f (dp, asked) col = .ok (dp', asked') → asked' = asked + 1 ∧ inv dp')
    (start : inv dp) :
    verdictOf (cols.foldlM f (dp, asked)) =
        ending (columnVerdicts answer verdict asked (serverids cols)) ∧
      ∀ dp' asked', cols.foldlM f (dp, asked) = .ok (dp', asked') →
        asked' = asked + (serverids cols).length ∧ inv dp' := by
  induction cols generalizing dp asked with
  | nil =>
      refine ⟨rfl, fun dp' asked' done => ?_⟩
      cases done
      exact ⟨rfl, start⟩
  | cons col cols ih =>
      have rest := fun dp asked => @ih dp asked
        (fun c mem => numbered c (List.mem_cons_of_mem col mem))
        (fun c mem => step c (List.mem_cons_of_mem col mem))
      rw [List.foldlM_cons]
      cases part : serveridOf col.1 with
      | none =>
          have same : serverids (col :: cols) = serverids cols := by simp [serverids, part]
          rw [skip col _ part, ok_bind, same]
          exact rest dp asked start
      | some x =>
          obtain ⟨id, value⟩ := numbered col List.mem_cons_self x part
          have more : serverids (col :: cols) = (x, id) :: serverids cols := by
            simp [serverids, part, value]
          obtain ⟨first, next⟩ := step col List.mem_cons_self dp asked x id part value start
          rw [more, columnVerdicts, ending_cons, ← first]
          constructor
          · refine verdictOf_bind _ fun (dp₁, asked₁) moved => ?_
            obtain ⟨rfl, holds⟩ := next dp₁ asked₁ moved
            exact (rest dp₁ (asked + 1) holds).1
          · intro dp' asked' done
            rw [bind_ok] at done
            obtain ⟨⟨dp₁, asked₁⟩, moved, done⟩ := done
            obtain ⟨rfl, holds⟩ := next dp₁ asked₁ moved
            obtain ⟨total, last⟩ := (rest dp₁ (asked + 1) holds).2 dp' asked' done
            refine ⟨?_, last⟩
            rw [total, List.length_cons]
            omega

end Fold

theorem foldOwnColumns (answer : Answers) (cfg : Config) (dp : Cluster) (asked : Nat)
    (numbered : Numbered cols) :
    verdictOf (cols.foldlM (ownColumn answer cfg) (dp, asked)) =
        ending (columnVerdicts answer (ownVerdict cfg.hostId) asked (serverids cols)) ∧
      ∀ dp' asked', cols.foldlM (ownColumn answer cfg) (dp, asked) = .ok (dp', asked') →
        asked' = asked + (serverids cols).length := by
  obtain ⟨verdict, next⟩ := foldColumns (f := ownColumn answer cfg) (fun _ => True) numbered
    (fun col progress part => by simp only [ownColumn, part])
    (fun col _ dp asked x id part value _ => by
      obtain ⟨verdict, next⟩ := ownColumn_named part value
      exact ⟨verdict, fun dp' asked' moved => ⟨(next dp' asked' moved).1, trivial⟩⟩) trivial
  exact ⟨verdict, fun dp' asked' done => (next dp' asked' done).1⟩

theorem foldMergedColumns (answer : Answers) (serverId : Int) (data : Row) (asked : Nat)
    (numbered : Numbered cols) (hosted : Hosted cfg cols dp) :
    verdictOf (cols.foldlM (mergedColumn answer cfg serverId data) (dp, asked)) =
        ending (columnVerdicts answer mergedVerdict asked (serverids cols)) ∧
      ∀ dp' asked', cols.foldlM (mergedColumn answer cfg serverId data) (dp, asked) =
        .ok (dp', asked') → asked' = asked + (serverids cols).length ∧ Hosted cfg cols dp' := by
  refine foldColumns (Hosted cfg cols) numbered ?_ ?_ hosted
  · intro col progress part
    simp only [mergedColumn, part]
  · intro col mem dp asked x id part value hosted
    exact mergedColumn_named part value mem hosted

theorem Hosted.snoc (hosted : Hosted cfg cols dp)
    (last : ∀ x, serveridOf col.1 = some x → isServercross cfg.services (x ++ node) = true →
      ∃ table, dp.lookup (x ++ node) = some (.hosts table)) :
    Hosted cfg (cols ++ [col]) dp := by
  intro c mem
  cases List.mem_append.mp mem with
  | inl before => exact hosted c before
  | inr here =>
      cases List.mem_singleton.mp here
      exact last

/-- The own pass leaves a table for every node that is kept by server. -/
theorem hosted_ownColumns (numbered : Numbered cols) {start progress : Progress}
    (done : cols.foldlM (ownColumn answer cfg) start = .ok progress) :
    Hosted cfg cols progress.1 := by
  refine foldlM_invariant (fun done progress => Numbered done → Hosted cfg done progress.1)
    (fun _ => nofun) ?_ done numbered
  rintro before col ⟨dp, asked⟩ ⟨dp', asked'⟩ holds moved numbered
  have hosted := holds fun c mem => numbered c (List.mem_append_left _ mem)
  cases part : serveridOf col.1 with
  | none =>
      simp only [ownColumn, part] at moved
      cases moved
      refine hosted.snoc fun x named => ?_
      rw [part] at named
      cases named
  | some x =>
      obtain ⟨id, value⟩ := numbered col (List.mem_append_right _ (List.mem_singleton_self col)) x
        part
      obtain ⟨-, ipport, rfl⟩ := (ownColumn_named part value).2 dp' asked' moved
      refine (hosted.put fun servercross => ⟨_, if_pos servercross⟩).snoc ?_
      intro y named servercross
      cases part.symm.trans named
      exact ⟨_, by rw [Assoc.lookup_put, if_pos rfl, if_pos servercross]⟩

/-- The loop over the merged servers. -/
theorem foldServers (numbered : Numbered cols) (hosted : Hosted cfg cols dp) (servers : List Int) :
    verdictOf (servers.foldlM (mergedServer answer cfg cols) (dp, asked)) =
      ending (mergedVerdicts answer cfg (serverids cols) asked servers) := by
  induction servers generalizing dp asked with
  | nil => rfl
  | cons serverId servers ih =>
      rw [List.foldlM_cons, mergedServer, mergedVerdicts]
      by_cases other : serverId ≠ cfg.hostId
      · rw [if_pos other, if_pos other]
        cases answer asked (.gameServer serverId) with
        | badresult => rfl
        | rows rows =>
            match rows with
            | [] => exact ih hosted
            | [data] =>
                have pass := foldMergedColumns answer serverId data (asked + 1) numbered hosted
                rw [ending_append, ← pass.1]
                refine verdictOf_bind _ fun (dp₁, asked₁) moved => ?_
                obtain ⟨rfl, hosted₁⟩ := pass.2 dp₁ asked₁ moved
                exact ih hosted₁
            | _ :: _ :: _ => exact ih hosted
      · rw [if_neg other, if_neg other]
        exact ih hosted

end Columns

section Whole
variable {answer : Answers} {cfg : Config}

theorem numbered_visit (own : Row) : Numbered (cfg.order.visit own.cols) := by
  intro col mem x part
  have int := own.serverids col ((cfg.order.perm own.cols).mem_iff.mp mem) (serveridOf_isSome part)
  cases value : col.2 with
  | int id => exact ⟨id, rfl⟩
  | text s =>
      rw [value] at int
      cases int

/-- The function ends as the answers let it. -/
theorem verdictOf_getGameNodeInfo (answer : Answers) (cfg : Config) :
    verdictOf (getGameNodeInfo answer cfg) = ending (verdicts answer cfg) := by
  unfold getGameNodeInfo verdicts
  by_cases cross : cfg.isCrossserver = true
  · rw [if_pos cross, if_pos cross]
    rfl
  · rw [if_neg cross, if_neg cross]
    dsimp only
    cases answer 0 (.gameServer cfg.hostId) with
    | badresult => rfl
    | rows rows =>
        cases rows with
        | nil => rfl
        | cons own rows =>
            dsimp only [firstRow]
            rw [ok_bind]
            by_cases address : hasAddress own (cfg.snode ++ "_node_ip".toList)
                (cfg.snode ++ "_node_port".toList) = true
            · rw [if_pos address, verdictOf_bind, verdictOf_ipport, if_pos address, if_pos rfl]
              intro ipport _
              obtain ⟨own, counted⟩ := foldOwnColumns answer cfg
                (Assoc.put (Assoc.put [] "node_ipport".toList (.addr ipport))
                  (cfg.snode ++ node) (.addr ipport)) 1 (numbered_visit own)
              rw [ending_append, ← own]
              refine verdictOf_bind _ fun (dp, asked) done => ?_
              have hosted := hosted_ownColumns (numbered_visit _) done
              cases counted dp asked done
              rw [← foldServers (numbered_visit _) hosted]
              refine (verdictOf_bind .passes fun _ _ => rfl).trans ?_
              split
              case isTrue passes => exact passes.symm
              case isFalse => rfl
            · rw [if_neg address, ipport_raised address]
              rfl

variable {dump : Res → String} {connected : Bool}

/-- `GetGameNodeInfoByDatabase` returns, and disconnects once, exactly when there is a
connection and the first answer that ends the function does not end it by raising. -/
theorem getGameNodeInfo_reported_iff (answer : Answers) (cfg : Config) (dump : Res → String)
    (connected : Bool) :
    Reported connected (getGameNodeInfoByDatabase answer cfg dump connected) ↔
      connected = true ∧ ending (verdicts answer cfg) ≠ .breaks := by
  rw [← verdictOf_getGameNodeInfo]
  cases connected with
  | false => simp [Reported, getGameNodeInfoByDatabase]
  | true =>
      rw [getGameNodeInfoByDatabase, if_pos rfl]
      cases getGameNodeInfo answer cfg with
      | ok dpcluster => simp [Reported, verdictOf]
      | error fault => cases fault <;> simp [Reported, verdictOf]

/-- No server of this id in the table: the first row of the answer is nil. -/
theorem getGameNodeInfo_empty :
    let cfg : Config := ⟨false, "game".toList, 1, [], [], .asStored⟩
    getGameNodeInfoByDatabase (fun _ _ => .rows []) cfg (fun _ => "") true = ⟨none, 0⟩ ∧
      ¬ Reported true (getGameNodeInfoByDatabase (fun _ _ => .rows []) cfg (fun _ => "") true) := by
  refine ⟨rfl, fun reported => ?_⟩
  exact reported.1 rfl

end Whole

section Content
variable (db : Db) (cfg : Config)

/-- A database whose content does not change. -/
def unchanged : Answers
  | _, .gameServer id => db.gameServer id
  | _, .crossServer id => db.crossServer id

theorem ownColumn_unchanged (progress : Progress) (col : Name × Value) :
    (ownColumn (unchanged db) cfg progress col).map Prod.fst =
      Nodeinfo.ownColumn db cfg.services cfg.hostId progress.1 col := by
  unfold ownColumn Nodeinfo.ownColumn
  cases serveridOf col.1 with
  | none => rfl
  | some x =>
      dsimp only
      split
      · rfl
      · simp only [map_bind]
        refine bind_congr fun id => ?_
        refine bind_congr fun crossData => ?_
        refine bind_congr fun ipport => ?_
        split <;> rfl

theorem mergedColumn_unchanged (serverId : Int) (data : Row) (progress : Progress)
    (col : Name × Value) :
    (mergedColumn (unchanged db) cfg serverId data progress col).map Prod.fst =
      Nodeinfo.mergedColumn db cfg.services serverId data progress.1 col := by
  unfold mergedColumn Nodeinfo.mergedColumn
  cases serveridOf col.1 with
  | none => rfl
  | some x =>
      simp only [map_bind]
      refine bind_congr fun id => ?_
      refine bind_congr fun crossData => ?_
      refine bind_congr fun ipport => ?_
      split
      · cases addHost progress.1 (x ++ node) serverId ipport <;> rfl
      · rfl

theorem mergedServer_unchanged (cols : List (Name × Value)) (progress : Progress)
    (serverId : Int) :
    (mergedServer (unchanged db) cfg cols progress serverId).map Prod.fst =
      Nodeinfo.mergedServer db cfg.services cfg.hostId cols progress.1 serverId := by
  unfold mergedServer Nodeinfo.mergedServer
  split
  · dsimp only [unchanged]
    cases db.gameServer serverId with
    | badresult => rfl
    | rows rows =>
        match rows with
        | [] => rfl
        | [data] => exact foldlM_map (mergedColumn_unchanged db cfg serverId data)
        | _ :: _ :: _ => rfl
  · rfl

theorem passes_unchanged (cols : List (Name × Value)) (progress : Progress) :
    (cols.foldlM (ownColumn (unchanged db) cfg) progress >>= fun progress =>
        cfg.mergeHosts.foldlM (mergedServer (unchanged db) cfg cols) progress >>= fun progress =>
          pure progress.1) =
      cols.foldlM (Nodeinfo.ownColumn db cfg.services cfg.hostId) progress.1 >>=
        cfg.mergeHosts.foldlM (Nodeinfo.mergedServer db cfg.services cfg.hostId cols) := by
  rw [← foldlM_map (ownColumn_unchanged db cfg)]
  cases cols.foldlM (ownColumn (unchanged db) cfg) progress with
  | error e => rfl
  | ok progress =>
      change _ = cfg.mergeHosts.foldlM _ progress.1
      rw [← foldlM_map (mergedServer_unchanged db cfg cols), ok_bind]
      cases cfg.mergeHosts.foldlM (mergedServer (unchanged db) cfg cols) progress <;> rfl

/-- With a content that does not change, the function is the one of the fixed database. -/
theorem getGameNodeInfo_unchanged :
    getGameNodeInfo (unchanged db) cfg =
      Nodeinfo.getGameNodeInfoByDatabase db cfg.services cfg.hostId cfg.isCrossserver cfg.snode
        cfg.mergeHosts cfg.order := by
  unfold getGameNodeInfo Nodeinfo.getGameNodeInfoByDatabase
  split
  · rfl
  · dsimp only [unchanged]
    refine bind_congr fun own => ?_
    refine bind_congr fun ipport => ?_
    exact passes_unchanged db cfg _ (_, 1)

end Content

end Qiuqiu.Nodeinfo.Reports
