import Qiuqiu.Nodeinfo.Merged

/-!
The addresses that a cross server finds. Every activity has at most one entry: its own
address when it has started the activity and no other server is named for it, the
address of the other server when there is one. Two columns of the own row never write
different addresses for one activity, so that their order does not matter.
-/
namespace Qiuqiu.Nodeinfo
open Loop
variable {game cross : Table} {hostId : Int} {own : Row} {ipport : Name}

/-- The own row names another server for an activity. A column whose name begins with
`is_startup_` is never read this way. -/
structure Elsewhere (hostId : Int) (own : Row) (x : Name) (id : Int) : Prop where
  column : own.get (x ++ serverid) = some (.int id)
  plain : ¬ isStartup <+: x ++ serverid
  other : id ≠ hostId

/-- The nodes of a cross server with their addresses. -/
inductive CrossEntry (cross : Table) (hostId : Int) (own : Row) (ipport : Name) :
    Name → Name → Prop
  | self (x : Name) : own.get (isStartup ++ x) = some (.int 1) →
      own.get (x ++ serverid) = none ∨ own.get (x ++ serverid) = some (.int hostId) →
      CrossEntry cross hostId own ipport (x ++ node) ipport
  | elsewhere (x : Name) (id : Int) (row : Row) (addr : Name) : Elsewhere hostId own x id →
      cross.select id = [row] → nodeIpport row = .ok addr →
      CrossEntry cross hostId own ipport (x ++ node) addr

/-- Every other server has a row, and has started what it is named for. -/
def Ready (cross : Table) (hostId : Int) (own : Row) : Prop :=
  ∀ x id, Elsewhere hostId own x id →
    ∃ row, cross.select id = [row] ∧ row.get (isStartup ++ x) = some (.int 1)

/-- The entries of the map. -/
def MapOf (cross : Table) (hostId : Int) (own : Row) (ipport : Name) (dp : Cluster) : Prop :=
  ∀ name n, dp.lookup name = some n ↔ ∃ addr, n = .addr addr ∧
    (name = "node_ipport".toList ∧ addr = ipport ∨ CrossEntry cross hostId own ipport name addr)

section Entries

theorem CrossEntry.functional {name a b : Name} (first : CrossEntry cross hostId own ipport name a)
    (second : CrossEntry cross hostId own ipport name b) : a = b := by
  cases first with
  | self x started here =>
      generalize same : x ++ node = name at second
      cases second with
      | self => rfl
      | elsewhere y id row _ elsewhere =>
          cases List.append_cancel_right same
          rw [elsewhere.column] at here
          cases here with
          | inl none => cases none
          | inr host =>
              cases host
              exact absurd rfl elsewhere.other
  | elsewhere x id row _ elsewhere one address =>
      generalize same : x ++ node = name at second
      cases second with
      | self y started here =>
          cases List.append_cancel_right same
          rw [elsewhere.column] at here
          cases here with
          | inl none => cases none
          | inr host =>
              cases host
              exact absurd rfl elsewhere.other
      | elsewhere y id' row' _ elsewhere' one' address' =>
          cases List.append_cancel_right same
          cases elsewhere.column.symm.trans elsewhere'.column
          cases one.symm.trans one'
          cases address.symm.trans address'
          rfl

theorem CrossEntry.ne_nodeIpport {name addr : Name}
    (entry : CrossEntry cross hostId own ipport name addr) : name ≠ "node_ipport".toList := by
  have apart : ¬ node <:+ "node_ipport".toList := by decide
  rintro rfl
  generalize same : "node_ipport".toList = name at entry
  cases entry with
  | self x => exact apart (same ▸ List.suffix_append x node)
  | elsewhere x => exact apart (same ▸ List.suffix_append x node)

/-- What a column writes for a node. -/
def columnEntry (cross : Table) (hostId : Int) (own : Row) (ipport name : Name)
    (col : Name × Value) : Option Node :=
  match startupOf col.1 with
  | some x =>
      if col.2 = .int 1 ∧
          (own.get (x ++ serverid) = none ∨ own.get (x ++ serverid) = some (.int hostId)) ∧
          name = x ++ node then
        some (.addr ipport)
      else none
  | none =>
      match serveridOf col.1 with
      | some x =>
          if col.2 ≠ .int hostId ∧ name = x ++ node then
            ((formatD col.2).toOption.bind (crossAddress cross)).map .addr
          else none
      | none => none

/-- A column of the own row that names another server. -/
theorem elsewhere_of_column {col : Name × Value} {x : Name} {id : Int} (mem : col ∈ own.cols)
    (only : SuffixOnly col.1) (plain : startupOf col.1 = none) (part : serveridOf col.1 = some x)
    (number : formatD col.2 = .ok id) (other : col.2 ≠ .int hostId) :
    Elsewhere hostId own x id := by
  obtain ⟨key, value⟩ := col
  cases (serveridOf_eq only).mp part
  cases value with
  | text s => cases number
  | int n =>
      cases number
      refine ⟨own.keyed.lookup_some.mpr mem, startupOf_none.mp plain, ?_⟩
      rintro rfl
      exact other rfl

/-- The columns write the entries. -/
theorem columnEntry_some (only : ∀ col ∈ own.cols, SuffixOnly col.1) {name : Name} {n : Node} :
    (∃ col ∈ own.cols, columnEntry cross hostId own ipport name col = some n) ↔
      ∃ addr, n = .addr addr ∧ CrossEntry cross hostId own ipport name addr := by
  constructor
  · rintro ⟨⟨key, value⟩, mem, written⟩
    rw [columnEntry] at written
    split at written
    case h_1 x begins =>
        split at written
        case isTrue holds =>
            obtain ⟨rfl, here, rfl⟩ := holds
            cases written
            cases startupOf_eq.mp begins
            exact ⟨ipport, rfl, .self x (own.keyed.lookup_some.mpr mem) here⟩
        case isFalse => cases written
    case h_2 plain =>
        split at written
        case h_1 x part =>
            split at written
            case isTrue holds =>
                obtain ⟨other, rfl⟩ := holds
                obtain ⟨addr, found, rfl⟩ := Option.map_eq_some_iff.mp written
                obtain ⟨id, number, found⟩ := Option.bind_eq_some_iff.mp found
                obtain ⟨row, one, address⟩ := crossAddress_eq.mp found
                have number : formatD value = .ok id := by
                  cases value with
                  | int n => exact congrArg Except.ok (Option.some.inj number)
                  | text s => cases number
                have elsewhere := elsewhere_of_column mem (only _ mem) plain part number other
                exact ⟨addr, rfl, .elsewhere x id row addr elsewhere one address⟩
            case isFalse => cases written
        case h_2 => cases written
  · rintro ⟨addr, rfl, entry⟩
    cases entry with
    | self x started here =>
        refine ⟨(isStartup ++ x, .int 1), own.keyed.lookup_some.mp started, ?_⟩
        simp [columnEntry, startupOf_eq.mpr rfl, here]
    | elsewhere x id row _ elsewhere one address =>
        have mem := own.keyed.lookup_some.mp elsewhere.column
        refine ⟨(x ++ serverid, .int id), mem, ?_⟩
        have part := (serveridOf_eq (only _ mem)).mpr rfl
        have found := crossAddress_eq.mpr ⟨row, one, address⟩
        simp [columnEntry, startupOf_none.mpr elsewhere.plain, part, elsewhere.other, formatD,
          Except.toOption, found]

end Entries

/-- The rows of the table have an address, and `_serverid` stands in the names of their
columns only at the end. -/
structure WellFormed (cross : Table) : Prop where
  nodeIp : ∀ row ∈ cross.rows, row.get "node_ip".toList ≠ none
  nodePort : ∀ row ∈ cross.rows, row.get "node_port".toList ≠ none
  suffixOnly : ∀ row ∈ cross.rows, ∀ col ∈ row.cols, SuffixOnly col.1

section Columns
variable {dp dp' : Cluster} {col : Name × Value}

theorem WellFormed.nodeIpport (formed : WellFormed cross) {row : Row} (mem : row ∈ cross.rows) :
    ∃ addr, nodeIpport row = .ok addr := by
  obtain ⟨ip, hasIp⟩ := Option.ne_none_iff_exists'.mp (formed.nodeIp row mem)
  obtain ⟨port, hasPort⟩ := Option.ne_none_iff_exists'.mp (formed.nodePort row mem)
  exact ⟨_, by rw [Nodeinfo.nodeIpport, Nodeinfo.ipport, hasIp, hasPort]⟩

theorem mem_rows_of_select {id : Int} {row : Row} (one : cross.select id = [row]) :
    row ∈ cross.rows := by
  have mem : row ∈ cross.select id := by simp [one]
  exact (List.mem_filter.mp mem).1

theorem crossColumn_ok
    (moved : crossColumn (answers game cross) hostId own ipport dp col = .ok dp') (name : Name) :
    dp'.lookup name = (columnEntry cross hostId own ipport name col).or (dp.lookup name) := by
  rw [crossColumn] at moved
  split at moved
  case h_1 x begins =>
      simp only [columnEntry, begins]
      by_cases one : col.2 = .int 1
      · rw [if_pos one] at moved
        by_cases here : own.get (x ++ serverid) = none ∨
            own.get (x ++ serverid) = some (.int hostId)
        · rw [if_pos here] at moved
          cases moved
          rw [Assoc.lookup_put]
          by_cases same : name = x ++ node <;> simp [same, one, here]
        · rw [if_neg here] at moved
          cases moved
          simp [here]
      · rw [if_neg one] at moved
        cases moved
        simp [one]
  case h_2 plain =>
      split at moved
      case h_1 x part =>
          simp only [columnEntry, plain, part]
          by_cases other : col.2 ≠ .int hostId
          · simp only [if_pos other, bind_ok] at moved
            obtain ⟨id, number, crossData, row, addr, started, moved⟩ := moved
            have found := crossAddress_of_started row started
            cases moved
            rw [Assoc.lookup_put]
            by_cases same : name = x ++ node <;> simp [same, other, number, Except.toOption, found]
          · rw [if_neg other] at moved
            cases moved
            simp [other]
      case h_2 none =>
          cases moved
          simp [columnEntry, plain, none]

theorem crossColumn_keyed (keyed : Assoc.Keyed dp)
    (moved : crossColumn (answers game cross) hostId own ipport dp col = .ok dp') :
    Assoc.Keyed dp' := by
  rw [crossColumn] at moved
  split at moved
  case h_1 =>
      split at moved
      · split at moved <;> cases moved
        · exact keyed.put
        · exact keyed
      · cases moved
        exact keyed
  case h_2 =>
      split at moved
      case h_1 =>
          split at moved
          · simp only [bind_ok] at moved
            obtain ⟨_, _, _, _, _, _, moved⟩ := moved
            cases moved
            exact keyed.put
          · cases moved
            exact keyed
      case h_2 =>
          cases moved
          exact keyed

/-- A column that went through names a server that has started the activity. -/
theorem crossColumn_ready {x : Name} {id : Int} (elsewhere : Elsewhere hostId own x id)
    (only : SuffixOnly (x ++ serverid))
    (moved : crossColumn (answers game cross) hostId own ipport dp (x ++ serverid, .int id) =
      .ok dp') :
    ∃ row, cross.select id = [row] ∧ row.get (isStartup ++ x) = some (.int 1) := by
  have other : Value.int id ≠ .int hostId := fun same => elsewhere.other (Value.int.inj same)
  simp only [crossColumn, startupOf_none.mpr elsewhere.plain, (serveridOf_eq only).mpr rfl,
    if_pos other, formatD, bind_ok] at moved
  obtain ⟨id', number, crossData, row, addr, started, -⟩ := moved
  cases number
  exact ⟨crossData, onlyRow_cross row, (startedIpport_ok.mp started).2⟩

theorem onlyRow_error {res : Res} {failure : Failure} {e : Fault}
    (missing : onlyRow res failure = .error e) :
    e = .failed failure ∧ ∀ row, res ≠ .rows [row] := by
  unfold onlyRow at missing
  split at missing
  case h_1 => cases missing
  case h_2 none =>
      cases missing
      exact ⟨rfl, none⟩

theorem startedIpport_error {row : Row} {startNodeCol addr : Name} {failure : Failure} {e : Fault}
    (address : nodeIpport row = .ok addr)
    (tested : startedIpport row startNodeCol failure = .error e) :
    e = .failed failure ∧ row.get startNodeCol ≠ some (.int 1) := by
  rw [startedIpport, address, ok_bind] at tested
  split at tested
  case isTrue => cases tested
  case isFalse idle =>
      cases tested
      exact ⟨rfl, idle⟩

/-- A column that does not go through names a server that is missing or has not started
the activity. -/
theorem crossColumn_error {e : Fault} (formed : WellFormed cross) (mem : col ∈ own.cols)
    (only : SuffixOnly col.1)
    (moved : crossColumn (answers game cross) hostId own ipport dp col = .error e) :
    (∃ failure, e = .failed failure) ∧ ¬ Ready cross hostId own := by
  rw [crossColumn] at moved
  split at moved
  case h_1 =>
      split at moved
      · split at moved <;> cases moved
      · cases moved
  case h_2 plain =>
      split at moved
      case h_2 => cases moved
      case h_1 x part =>
          by_cases other : col.2 ≠ .int hostId
          · rw [if_pos other] at moved
            have suffix := serveridOf_isSome part
            obtain ⟨key, value⟩ := col
            cases value with
            | text s => cases own.serverids _ mem suffix
            | int id =>
                have elsewhere := elsewhere_of_column mem only plain part rfl other
                simp only [formatD, ok_bind, bind_error] at moved
                cases moved with
                | inl missing =>
                    obtain ⟨rfl, none⟩ := onlyRow_error missing
                    refine ⟨⟨_, rfl⟩, fun ready => ?_⟩
                    obtain ⟨row, one, -⟩ := ready x id elsewhere
                    exact none row (congrArg Res.rows one)
                | inr moved =>
                    obtain ⟨crossData, row, tested | ⟨addr, -, never⟩⟩ := moved
                    · have one := onlyRow_cross row
                      obtain ⟨addr, address⟩ := formed.nodeIpport (mem_rows_of_select one)
                      obtain ⟨rfl, idle⟩ := startedIpport_error address tested
                      refine ⟨⟨_, rfl⟩, fun ready => ?_⟩
                      obtain ⟨row', one', started⟩ := ready x id elsewhere
                      cases one.symm.trans one'
                      exact idle started
                    · cases never
          · rw [if_neg other] at moved
            cases moved

end Columns

section Result
variable {dp : Cluster} {order : Assoc.PairsOrder (Name × Value)} {cols : List (Name × Value)}

/-- In every order, what the last column writes for a node is its entry. -/
theorem lastSome_columnEntry (formed : ∀ col ∈ own.cols, SuffixOnly col.1)
    (perm : cols.Perm own.cols) (name : Name) (n : Node) :
    lastSome (columnEntry cross hostId own ipport name) cols = some n ↔
      ∃ addr, n = .addr addr ∧ CrossEntry cross hostId own ipport name addr := by
  have written : ∀ n, (∃ col ∈ cols, columnEntry cross hostId own ipport name col = some n) ↔
      ∃ addr, n = .addr addr ∧ CrossEntry cross hostId own ipport name addr := by
    intro n
    rw [← columnEntry_some formed]
    simp only [perm.mem_iff]
  rw [lastSome_of_agree, written]
  intro col mem col' mem' n n' first second
  obtain ⟨addr, rfl, entry⟩ := (written n).mp ⟨col, mem, first⟩
  obtain ⟨addr', rfl, entry'⟩ := (written n').mp ⟨col', mem', second⟩
  rw [entry.functional entry']

/-- The loop over the columns, seen at one node. -/
theorem crossColumns_lookup
    (run : cols.foldlM (crossColumn (answers game cross) hostId own ipport)
      [("node_ipport".toList, .addr ipport)] = .ok dp) (name : Name) :
    dp.lookup name = (lastSome (columnEntry cross hostId own ipport name) cols).or
      (List.lookup name [("node_ipport".toList, Node.addr ipport)]) := by
  refine foldlM_invariant (fun done dp => dp.lookup name =
    (lastSome (columnEntry cross hostId own ipport name) done).or
      (List.lookup name [("node_ipport".toList, Node.addr ipport)])) ?_ ?_ run
  · simp [lastSome]
  · intro done col dp₁ dp₂ holds moved
    rw [crossColumn_ok moved name, holds, lastSome_snoc, Option.or_assoc]

theorem crossColumns_keyed
    (run : cols.foldlM (crossColumn (answers game cross) hostId own ipport)
      [("node_ipport".toList, .addr ipport)] = .ok dp) : Assoc.Keyed dp := by
  have first : Assoc.Keyed [("node_ipport".toList, Node.addr ipport)] := List.nodup_singleton _
  refine foldlM_invariant (fun _ dp => Assoc.Keyed dp) first ?_ run
  intro done col dp₁ dp₂ keyed moved
  exact crossColumn_keyed keyed moved

/-- What the loop over the columns leaves. -/
theorem crossColumns_ok (formed : ∀ col ∈ own.cols, SuffixOnly col.1) (perm : cols.Perm own.cols)
    (run : cols.foldlM (crossColumn (answers game cross) hostId own ipport)
      [("node_ipport".toList, .addr ipport)] = .ok dp) : MapOf cross hostId own ipport dp := by
  intro name n
  have entries := @lastSome_columnEntry cross hostId own ipport cols formed perm name
  rw [crossColumns_lookup run, Option.or_eq_some_iff, entries]
  constructor
  · rintro (⟨addr, rfl, entry⟩ | ⟨-, initial⟩)
    · exact ⟨addr, rfl, .inr entry⟩
    · by_cases here : name = "node_ipport".toList
      · subst here
        cases initial
        exact ⟨ipport, rfl, .inl ⟨rfl, rfl⟩⟩
      · have other : (name == "node_ipport".toList) = false := beq_eq_false_iff_ne.mpr here
        rw [List.lookup_cons, other] at initial
        cases initial
  · rintro ⟨addr, rfl, ⟨rfl, rfl⟩ | entry⟩
    · refine .inr ⟨?_, rfl⟩
      cases written : lastSome (columnEntry cross hostId own addr "node_ipport".toList) cols with
      | none => rfl
      | some n =>
          obtain ⟨addr', -, entry⟩ := (entries n).mp written
          exact absurd rfl entry.ne_nodeIpport
    · exact .inl ⟨addr, rfl, entry⟩

/-- The columns go through exactly when the other servers are ready. -/
theorem crossColumns_ready (formed : WellFormed cross) (self : cross.select hostId = [own])
    (perm : cols.Perm own.cols) {start : Cluster} :
    (∃ dp, cols.foldlM (crossColumn (answers game cross) hostId own ipport) start = .ok dp) ∧
        Ready cross hostId own ∨
      (∃ failure, cols.foldlM (crossColumn (answers game cross) hostId own ipport) start =
        .error (.failed failure)) ∧ ¬ Ready cross hostId own := by
  have only := formed.suffixOnly own (mem_rows_of_select self)
  cases run : cols.foldlM (crossColumn (answers game cross) hostId own ipport) start with
  | ok dp =>
      refine .inl ⟨⟨dp, rfl⟩, ?_⟩
      intro x id elsewhere
      have mem := own.keyed.lookup_some.mp elsewhere.column
      obtain ⟨_, _, moved⟩ := foldlM_steps run _ (perm.mem_iff.mpr mem)
      exact crossColumn_ready elsewhere (only _ mem) moved
  | error e =>
      obtain ⟨col, mem, dp₁, moved⟩ := foldlM_error run
      have mem := perm.mem_iff.mp mem
      obtain ⟨⟨failure, rfl⟩, idle⟩ := crossColumn_error formed mem (only col mem) moved
      exact .inr ⟨⟨failure, rfl⟩, idle⟩

/-- The map has more than one entry exactly when there is a node. -/
theorem size_iff (keyed : Assoc.Keyed dp) (entries : MapOf cross hostId own ipport dp) :
    1 < dp.length ↔ ∃ name addr, CrossEntry cross hostId own ipport name addr := by
  have first : ("node_ipport".toList, Node.addr ipport) ∈ dp :=
    keyed.lookup_some.mp ((entries _ _).mpr ⟨ipport, rfl, .inl ⟨rfl, rfl⟩⟩)
  have perm := keyed.perm_remove first
  rw [perm.length_eq, List.length_cons, Nat.lt_add_left_iff_pos, List.length_pos_iff_exists_mem]
  constructor
  · rintro ⟨⟨name, n⟩, mem⟩
    obtain ⟨inside, other⟩ := Assoc.mem_remove.mp mem
    obtain ⟨addr, -, here | entry⟩ := (entries name n).mp (keyed.lookup_some.mpr inside)
    · exact absurd here.1 other
    · exact ⟨name, addr, entry⟩
  · rintro ⟨name, addr, entry⟩
    have inside := keyed.lookup_some.mp ((entries name _).mpr ⟨addr, rfl, .inr entry⟩)
    exact ⟨_, Assoc.mem_remove.mpr ⟨inside, entry.ne_nodeIpport⟩⟩

/-- The contents under which a cross server has its nodes. -/
structure Startable (cross : Table) (hostId : Int) (own : Row) (ipport : Name) : Prop where
  self : cross.select hostId = [own]
  address : nodeIpport own = .ok ipport
  ready : Ready cross hostId own
  some : ∃ name addr, CrossEntry cross hostId own ipport name addr

/-- In every order of the columns. -/
theorem getCross_cases (formed : WellFormed cross) (order : Assoc.PairsOrder (Name × Value)) :
    (∃ own ipport dp, Startable cross hostId own ipport ∧ MapOf cross hostId own ipport dp ∧
      getCrossNodeInfoByDatabase (answers game cross) hostId true order = .ok dp) ∨
    (¬ ∃ own ipport, Startable cross hostId own ipport) ∧ ∃ failure,
      getCrossNodeInfoByDatabase (answers game cross) hostId true order =
        .error (.failed failure) := by
  simp only [getCrossNodeInfoByDatabase, Bool.not_true, Bool.false_eq_true, if_false]
  cases row : onlyRow ((answers game cross).crossServer hostId)
      (.queryOwn hostId ((answers game cross).crossServer hostId)) with
  | error e =>
      obtain ⟨rfl, none⟩ := onlyRow_error row
      refine .inr ⟨?_, _, rfl⟩
      rintro ⟨own, ipport, startable⟩
      exact none own (congrArg Res.rows startable.self)
  | ok own =>
      have self := onlyRow_cross row
      obtain ⟨ipport, address⟩ := formed.nodeIpport (mem_rows_of_select self)
      have unique : ∀ own' ipport', Startable cross hostId own' ipport' →
          own' = own ∧ ipport' = ipport := by
        intro own' ipport' startable
        cases self.symm.trans startable.self
        cases address.symm.trans startable.address
        exact ⟨rfl, rfl⟩
      rw [ok_bind, address, ok_bind]
      obtain ⟨⟨dp, run⟩, ready⟩ | ⟨⟨failure, run⟩, idle⟩ :=
        @crossColumns_ready game cross hostId own ipport _ formed self (order.perm own.cols) _
      · rw [run, ok_bind]
        have entries := crossColumns_ok (formed.suffixOnly own (mem_rows_of_select self))
          (order.perm own.cols) run
        have size := size_iff (crossColumns_keyed run) entries
        by_cases small : dp.length ≤ 1
        · rw [if_pos small]
          refine .inr ⟨?_, _, rfl⟩
          rintro ⟨own', ipport', startable⟩
          obtain ⟨rfl, rfl⟩ := unique own' ipport' startable
          exact absurd (size.mpr startable.some) (by omega)
        · rw [if_neg small]
          have startable := Startable.mk self address ready (size.mp (by omega))
          exact .inl ⟨own, ipport, dp, startable, entries, rfl⟩
      · rw [run]
        refine .inr ⟨?_, failure, rfl⟩
        rintro ⟨own', ipport', startable⟩
        obtain ⟨rfl, rfl⟩ := unique own' ipport' startable
        exact idle startable.ready

theorem getCross_ok (formed : WellFormed cross) {order : Assoc.PairsOrder (Name × Value)} :
    (∃ dp, getCrossNodeInfoByDatabase (answers game cross) hostId true order = .ok dp) ↔
      ∃ own ipport, Startable cross hostId own ipport := by
  obtain ⟨own, ipport, dp, startable, -, run⟩ | ⟨never, failure, run⟩ :=
    @getCross_cases game cross hostId formed order
  · exact ⟨fun _ => ⟨own, ipport, startable⟩, fun _ => ⟨dp, run⟩⟩
  · refine ⟨?_, fun startable => absurd startable never⟩
    rintro ⟨dp, returned⟩
    cases run.symm.trans returned

theorem getCross_failed (formed : WellFormed cross) {order : Assoc.PairsOrder (Name × Value)} :
    (∃ failure, getCrossNodeInfoByDatabase (answers game cross) hostId true order =
      .error (.failed failure)) ↔ ¬ ∃ own ipport, Startable cross hostId own ipport := by
  obtain ⟨own, ipport, dp, startable, -, run⟩ | ⟨never, failure, run⟩ :=
    @getCross_cases game cross hostId formed order
  · refine ⟨?_, fun never => absurd ⟨own, ipport, startable⟩ never⟩
    rintro ⟨failure, failed⟩
    cases run.symm.trans failed
  · exact ⟨fun _ => never, fun _ => ⟨failure, run⟩⟩

theorem getCross_map (formed : WellFormed cross)
    (run : getCrossNodeInfoByDatabase (answers game cross) hostId true order = .ok dp) :
    ∃ own ipport, Startable cross hostId own ipport ∧ MapOf cross hostId own ipport dp := by
  obtain ⟨own, ipport, dp', startable, map, run'⟩ | ⟨-, failure, run'⟩ :=
    @getCross_cases game cross hostId formed order
  · cases run'.symm.trans run
    exact ⟨own, ipport, startable, map⟩
  · cases run'.symm.trans run

/-- The success and the map of a cross server do not depend on the order of its columns:
it succeeds exactly when it has a row with a node and every server it names elsewhere is
there and has started the activity, and the map has exactly these entries. -/
theorem getCross_exact (formed : WellFormed cross) (game : Table) (hostId : Int)
    (order order' : Assoc.PairsOrder (Name × Value)) :
    ((∃ dp, getCrossNodeInfoByDatabase (answers game cross) hostId true order = .ok dp) ↔
      ∃ own ipport, Startable cross hostId own ipport) ∧
    ((∃ failure, getCrossNodeInfoByDatabase (answers game cross) hostId true order =
        .error (.failed failure)) ↔
      ¬ ∃ own ipport, Startable cross hostId own ipport) ∧
    (∀ dp, getCrossNodeInfoByDatabase (answers game cross) hostId true order = .ok dp →
      ∃ own ipport, Startable cross hostId own ipport ∧ MapOf cross hostId own ipport dp) ∧
    ((∃ dp, getCrossNodeInfoByDatabase (answers game cross) hostId true order = .ok dp) ↔
      ∃ dp, getCrossNodeInfoByDatabase (answers game cross) hostId true order' = .ok dp) ∧
    ∀ dp dp', getCrossNodeInfoByDatabase (answers game cross) hostId true order = .ok dp →
      getCrossNodeInfoByDatabase (answers game cross) hostId true order' = .ok dp' →
      ∀ name, dp.lookup name = dp'.lookup name := by
  refine ⟨getCross_ok formed, getCross_failed formed, fun dp run => getCross_map formed run,
    (getCross_ok formed).trans (getCross_ok formed).symm, ?_⟩
  intro dp dp' run run' name
  obtain ⟨own, ipport, startable, map⟩ := getCross_map formed run
  obtain ⟨own', ipport', startable', map'⟩ := getCross_map formed run'
  cases startable.self.symm.trans startable'.self
  cases startable.address.symm.trans startable'.address
  exact Option.ext fun n => (map name n).trans (map' name n).symm

/-- A cross server that has started one activity and leaves another to server 2. -/
def leavingTable : Table where
  rows :=
    [⟨[("server_id".toList, .int 1), ("node_ip".toList, .text "10.0.0.1".toList),
      ("node_port".toList, .int 9000), ("is_startup_c".toList, .int 1),
      ("is_startup_d".toList, .int 1), ("d_serverid".toList, .int 2)],
      by unfold Assoc.Keyed; decide, by decide⟩,
    ⟨[("server_id".toList, .int 2), ("node_ip".toList, .text "10.0.0.2".toList),
      ("node_port".toList, .int 9000), ("is_startup_d".toList, .int 1)],
      by unfold Assoc.Keyed; decide, by decide⟩]
  primary := by decide

def backwards : Assoc.PairsOrder (Name × Value) := ⟨List.reverse, List.reverse_perm⟩

theorem getCross_exact_leaving :
    (∃ dp, getCrossNodeInfoByDatabase (answers leavingTable leavingTable) 1 true .asStored =
      .ok dp) ∧
    ∀ dp dp',
      getCrossNodeInfoByDatabase (answers leavingTable leavingTable) 1 true .asStored = .ok dp →
      getCrossNodeInfoByDatabase (answers leavingTable leavingTable) 1 true backwards = .ok dp' →
      ∀ name, dp.lookup name = dp'.lookup name := by
  have formed : WellFormed leavingTable := ⟨by decide, by decide, by decide⟩
  have result := getCross_exact formed leavingTable 1 .asStored backwards
  exact ⟨⟨_, rfl⟩, result.2.2.2.2⟩

/-- A cross server with a column that begins with `is_startup_` and ends with
`_serverid`. -/
def bothRow : Row where
  cols := [("server_id".toList, .int 1), ("node_ip".toList, .text "10.0.0.1".toList),
    ("node_port".toList, .int 9000), ("is_startup_c".toList, .int 1),
    ("is_startup_y_serverid".toList, .int 5)]
  keyed := by
    unfold Assoc.Keyed
    decide
  serverids := by decide

def bothTable : Table where
  rows := [bothRow]
  primary := by decide

/-- The column names a server that is missing, and the function succeeds. -/
theorem getCross_ignores_startup_serverid :
    WellFormed bothTable ∧ bothTable.select 1 = [bothRow] ∧
      bothRow.get ("is_startup_y".toList ++ serverid) = some (.int 5) ∧ bothTable.select 5 = [] ∧
      ∃ dp, getCrossNodeInfoByDatabase (answers bothTable bothTable) 1 true .asStored = .ok dp ∧
        dp.lookup "is_startup_y_node".toList = none :=
  ⟨⟨by decide, by decide, by decide⟩, rfl, by decide, rfl, _, rfl, rfl⟩

end Result

end Qiuqiu.Nodeinfo
