import Qiuqiu.Rpc.Proxysvr

/-!
What a caller gets from the proxies. A use that no check refuses sends one message
and a call returns its reply, on the own node and through dpcluster; through
cluster the message is another one and the reply is lost. A cached proxy is the
one asked for, except that on the own node its cluster type is not compared.
-/
namespace Qiuqiu.Rpc.Proxysvr
open ModCall (Addr CallTable Config Values)
open Triple
variable {cfg : Config} {V : Type}

section Properties
variable (val : Values V) (w w' : World cfg V)

/-- Where a message of a proxy goes: on the own node to the service that has the address,
or had it when `skynet.localname` was asked for it. -/
def Located (proxy : Proxy cfg) (dest : Addr) : Prop :=
  if proxy.nodeName = cfg.selfnode then
    ∃ num, dest = .num num ∧
      (proxy.addr = .num num ∨ ∃ name, proxy.addr = .name name ∧ (name, num) ∈ w.answers)
  else dest = proxy.addr

/-- The message that a use stands for. -/
def Use.message (u : Use cfg V) (dest : Addr) : Request V :=
  ⟨u.side, u.proxy.nodeName, dest, u.prototype, u.k.toList.map val.ofName ++ u.args⟩

def ObjRefused (u : Use cfg V) : Prop := (cfg.isTestserver && u.args.any val.isObj) = true

/-- No service has the name, and the table has not looked it up before. -/
def NameRefused (u : Use cfg V) : Prop :=
  u.proxy.nodeName = cfg.selfnode ∧ ∃ name, u.proxy.addr = .name name ∧
    (w.upvalues u.proxy.id u.side).addrNum = none ∧ u.localname name = none

/-- One message, and a call returns the reply; nothing is sent when the use is refused. -/
structure Served (u : Use cfg V) (result : Except String (List V)) : Prop where
  refused : ObjRefused val u ∨ NameRefused w u →
    (∃ err, result = .error err) ∧ w'.sent = w.sent
  served : ¬ (ObjRefused val u ∨ NameRefused w u) →
    ∃ dest values, Located w' u.proxy dest ∧ result = .ok values ∧
      w'.sent = w.sent ++ [u.message val dest] ∧ (u.side = .call → values = u.back)

/-- The proxy is the one that was asked for. -/
structure Fits (addr : Addr) (nodeName clustertype prototype : Option String)
    (proxy : Proxy cfg) : Prop where
  addr : proxy.addr = addr
  nodeName : some proxy.nodeName = nodeName
  clustertype : proxy.clustertype = clustertype
  prototype : proxy.prototype = prototype

/-- A proxy that is returned is the one asked for, and can be used from now on. -/
def Obtained (addr : Addr) (nodeName clustertype prototype : Option String)
    (result : Except String (Proxy cfg)) : Prop :=
  ∀ proxy, result = .ok proxy →
    Fits addr nodeName clustertype prototype proxy ∧ proxy ∈ w'.proxies

/-- What a step gives: the proxy asked for, or one message and its answer. -/
def StepCorrect : Event cfg V → Result cfg V → Prop
  | .getProxy addr nodeName clustertype prototype, .proxy result =>
      Obtained w' addr nodeName clustertype prototype result
  | .use u, .values result => Served val w w' u result
  | _, _ => False

/-- On the own node a cached proxy is asked for with its own cluster type, and no message goes
to another node through `cluster`. -/
def StepSafe : Event cfg V → Prop
  | .getProxy addr nodeName clustertype prototype =>
      nodeName = some cfg.selfnode → ∀ proxy, w.selfNode addr = some proxy →
        proxy.prototype = prototype → proxy.clustertype = clustertype
  | .use u => u.proxy.nodeName = cfg.selfnode ∨ u.proxy.clustertype ≠ some "cluster" ∨
      ObjRefused val u

end Properties

section Invariant

/-- Every proxy has a place of its own in the caches and among the upvalues. -/
structure World.Inv (w : World cfg V) : Prop where
  selfNode : ∀ addr proxy, w.selfNode addr = some proxy →
    proxy ∈ w.proxies ∧ proxy.addr = addr ∧ proxy.nodeName = cfg.selfnode
  othernode : ∀ addr nodeName proxy, w.othernode addr nodeName = some proxy →
    proxy ∈ w.proxies ∧ proxy.addr = addr ∧ proxy.nodeName = nodeName
  ids : ∀ proxy ∈ w.proxies, w.proxies[proxy.id]? = some proxy
  fresh : ∀ id side, w.proxies.length ≤ id → (w.upvalues id side).addrNum = none
  addrNum : ∀ proxy ∈ w.proxies, ∀ side num, (w.upvalues proxy.id side).addrNum = some num →
    proxy.addr = .num num ∨ ∃ name, proxy.addr = .name name ∧ (name, num) ∈ w.answers
  cacheFunc : ∀ id side k func, (w.upvalues id side).cacheFunc k = some func → func = k

theorem World.Inv.init : (World.init : World cfg V).Inv := by
  refine ⟨?_, ?_, ?_, ?_, ?_, ?_⟩
  · intro addr proxy held
    cases held
  · intro addr nodeName proxy held
    cases held
  · intro proxy mem
    cases mem
  · intro id side _
    rfl
  · intro proxy mem
    cases mem
  · intro id side k func held
    cases held

variable {w : World cfg V}

/-- Other upvalues of a table leave the rest alone. -/
theorem World.Inv.setUpvalues (inv : w.Inv) {proxy : Proxy cfg} (mem : proxy ∈ w.proxies)
    (side : Side) {up : Upvalues} {answers : List (String × Nat)}
    (more : ∀ x ∈ w.answers, x ∈ answers)
    (addrNum : ∀ num, up.addrNum = some num →
      proxy.addr = .num num ∨ ∃ name, proxy.addr = .name name ∧ (name, num) ∈ answers)
    (cacheFunc : ∀ k func, up.cacheFunc k = some func → func = k) :
    World.Inv { w.setUpvalues proxy.id side up with answers := answers } := by
  have bound : proxy.id < w.proxies.length :=
    (List.getElem?_eq_some_iff.mp (inv.ids proxy mem)).1
  refine ⟨inv.selfNode, inv.othernode, inv.ids, ?_, ?_, ?_⟩
  · intro id side' outside
    have ne : ¬ (id = proxy.id ∧ side' = side) := fun same => by
      have := same.1
      change w.proxies.length ≤ id at outside
      omega
    simp only [World.setUpvalues, if_neg ne]
    exact inv.fresh id side' outside
  · intro other otherMem side' num held
    simp only [World.setUpvalues] at held
    split at held
    · rename_i same
      have found := inv.ids other otherMem
      rw [same.1, inv.ids proxy mem] at found
      cases found
      exact addrNum num held
    · obtain direct | ⟨name, named, answered⟩ := inv.addrNum other otherMem side' num held
      · exact .inl direct
      · exact .inr ⟨name, named, more _ answered⟩
  · intro id side' k func held
    simp only [World.setUpvalues] at held
    split at held
    · exact cacheFunc k func held
    · exact inv.cacheFunc id side' k func held

end Invariant

section Uses
variable {val : Values V} {u : Use cfg V} {w w' : World cfg V}

/-- Nothing is sent, and no proxy is made. -/
structure Quiet (w w' : World cfg V) : Prop where
  inv : w'.Inv
  sent : w'.sent = w.sent
  proxies : w'.proxies = w.proxies

theorem outcome_addrNum_refused (refused : NameRefused w u) :
    ∃ err, outcome (addrNum u) w = (.error err, w) := by
  obtain ⟨-, name, addr, unknown, absent⟩ := refused
  simp only [addrNum, addr]
  refine ⟨"not service by name" ++ name, ?_⟩
  rw [outcome_bind_ok (outcome_get w)]
  simp only [unknown, absent]
  exact outcome_throw _ w

theorem outcome_addrNum (inv : w.Inv) (mem : u.proxy ∈ w.proxies)
    (self : u.proxy.nodeName = cfg.selfnode) (known : ¬ NameRefused w u) :
    ∃ num w', outcome (addrNum u) w = (.ok num, w') ∧ Quiet w w' ∧
      Located w' u.proxy (.num num) := by
  have located : ∀ w' : World cfg V, ∀ num,
      (u.proxy.addr = .num num ∨ ∃ name, u.proxy.addr = .name name ∧ (name, num) ∈ w'.answers) →
      Located w' u.proxy (.num num) := by
    intro w' num h
    rw [Located, if_pos self]
    exact ⟨num, rfl, h⟩
  unfold addrNum
  rw [outcome_bind_ok (outcome_get w)]
  cases addr : u.proxy.addr with
  | num num =>
      refine ⟨num, _, outcome_bind_ok (outcome_modify _ w) _, ⟨?_, rfl, rfl⟩, ?_⟩
      · refine inv.setUpvalues mem u.side (fun _ h => h) ?_ (inv.cacheFunc _ _)
        rintro num ⟨⟩
        exact .inl addr
      · exact located _ num (.inl addr)
  | name name =>
      dsimp only
      cases up : (w.upvalues u.proxy.id u.side).addrNum with
      | some num => exact ⟨num, w, rfl, ⟨inv, rfl, rfl⟩, located w num (inv.addrNum _ mem _ _ up)⟩
      | none =>
          cases found : u.localname name with
          | none => exact absurd ⟨self, name, addr, up, found⟩ known
          | some num =>
              have answered : (name, num) ∈ w.answers ++ [(name, num)] := by simp
              refine ⟨num, _, outcome_bind_ok (outcome_modify _ w) _, ⟨?_, rfl, rfl⟩, ?_⟩
              · refine inv.setUpvalues mem u.side (fun _ h => List.mem_append_left _ h) ?_
                  (inv.cacheFunc _ _)
                rintro num ⟨⟩
                exact .inr ⟨name, addr, answered⟩
              · exact located _ num (.inr ⟨name, addr, answered⟩)

/-- A function in the cache has the name it is found under. -/
theorem outcome_command (val : Values V) (inv : w.Inv) (mem : u.proxy ∈ w.proxies) :
    ∃ w', outcome (command val u) w = (.ok (u.k.toList.map val.ofName), w') ∧ Quiet w w' ∧
      w'.answers = w.answers := by
  unfold command
  cases named : u.k with
  | none => exact ⟨w, rfl, ⟨inv, rfl, rfl⟩, rfl⟩
  | some k =>
      dsimp only
      rw [outcome_bind_ok (outcome_get w)]
      cases cached : (w.upvalues u.proxy.id u.side).cacheFunc k with
      | some func =>
          rw [inv.cacheFunc _ _ _ _ cached]
          exact ⟨w, rfl, ⟨inv, rfl, rfl⟩, rfl⟩
      | none =>
          refine ⟨_, outcome_bind_ok (outcome_modify _ w) _, ⟨?_, rfl, rfl⟩, rfl⟩
          refine inv.setUpvalues mem u.side (fun _ h => h) (inv.addrNum _ mem _) ?_
          intro k' func held
          simp only [Function.update_apply] at held
          split at held
          · cases held
            exact (by assumption : k' = k).symm
          · exact inv.cacheFunc _ _ _ _ held

/-- What the closures have in common: the check of the arguments, and one message. -/
def sendOff (val : Values V) (u : Use cfg V) (request : List V → Request V) (back : List V) :
    Run cfg V (List V) := do
  let first ← command val u
  objCheck val u
  deliver (request first)
  return back

theorem outcome_sendOff_refused (inv : w.Inv) (mem : u.proxy ∈ w.proxies)
    (refused : ObjRefused val u) (request : List V → Request V) (back : List V) :
    ∃ err w', outcome (sendOff val u request back) w = (.error err, w') ∧ Quiet w w' := by
  obtain ⟨w', out, quiet, -⟩ := outcome_command val inv mem
  have check : outcome (objCheck val u) w' = (.error "param can not be obj", w') := by
    unfold ObjRefused at refused
    rw [objCheck, if_pos refused]
    rfl
  refine ⟨"param can not be obj", w', ?_, quiet⟩
  rw [sendOff, outcome_bind_ok out]
  exact outcome_bind_error check _

theorem outcome_sendOff (inv : w.Inv) (mem : u.proxy ∈ w.proxies) (passed : ¬ ObjRefused val u)
    (request : List V → Request V) (back : List V) :
    ∃ w', outcome (sendOff val u request back) w = (.ok back, w') ∧ w'.Inv ∧
      w'.sent = w.sent ++ [request (u.k.toList.map val.ofName)] ∧
      w'.proxies = w.proxies ∧ w'.answers = w.answers := by
  obtain ⟨w', out, quiet, answers⟩ := outcome_command val inv mem
  have check : outcome (objCheck val u) w' = (.ok (), w') := by
    unfold ObjRefused at passed
    rw [objCheck, if_neg passed]
    rfl
  let request := request (u.k.toList.map val.ofName)
  refine ⟨{ w' with sent := w'.sent ++ [request] }, ?_, ?_, ?_, quiet.proxies, answers⟩
  · rw [sendOff, outcome_bind_ok out, outcome_bind_ok check]
    exact outcome_bind_ok (outcome_modify (fun w => { w with sent := w.sent ++ [request] }) w') _
  · exact ⟨quiet.inv.selfNode, quiet.inv.othernode, quiet.inv.ids, quiet.inv.fresh,
      quiet.inv.addrNum, quiet.inv.cacheFunc⟩
  · rw [← quiet.sent]

theorem use_eq : use val u =
    match u.proxy.table u.side with
    | .selfNode => do
        let num ← addrNum u
        sendOff val u
          (fun first => ⟨u.side, cfg.selfnode, .num num, u.prototype, first ++ u.args⟩) u.back
    | .cluster =>
        sendOff val u (fun first => ⟨u.side, u.proxy.nodeName, u.proxy.addr, "lua",
          val.ofName u.prototype :: (first ++ u.args)⟩) []
    | .dpcluster =>
        sendOff val u (fun first => ⟨u.side, u.proxy.nodeName, u.proxy.addr, u.prototype,
          first ++ u.args⟩) u.back := by
  unfold use
  cases u.proxy.table u.side with
  | selfNode | cluster | dpcluster => rfl

theorem Proxy.table_self {proxy : Proxy cfg} (self : proxy.nodeName = cfg.selfnode) (side : Side) :
    proxy.table side = .selfNode := by
  rw [proxy.table_kind, kindOf, if_pos self]

theorem Proxy.table_cluster {proxy : Proxy cfg} (other : proxy.nodeName ≠ cfg.selfnode)
    (cluster : proxy.clustertype = some "cluster") (side : Side) :
    proxy.table side = .cluster := by
  rw [proxy.table_kind, kindOf, if_neg other, if_pos cluster]

theorem Proxy.table_dpcluster {proxy : Proxy cfg} (other : proxy.nodeName ≠ cfg.selfnode)
    (dpcluster : proxy.clustertype ≠ some "cluster") (side : Side) :
    proxy.table side = .dpcluster := by
  rw [proxy.table_kind, kindOf, if_neg other, if_neg dpcluster]

/-- A use that is refused raises, whatever the table. -/
theorem outcome_use_refused (inv : w.Inv) (mem : u.proxy ∈ w.proxies)
    (refused : ObjRefused val u ∨ NameRefused w u) :
    ∃ err w', outcome (use val u) w = (.error err, w') ∧ Quiet w w' := by
  rw [use_eq]
  by_cases name : NameRefused w u
  · obtain ⟨err, out⟩ := outcome_addrNum_refused name
    rw [u.proxy.table_self name.1]
    exact ⟨err, w, outcome_bind_error out _, inv, rfl, rfl⟩
  · have obj := refused.resolve_right name
    cases table : u.proxy.table u.side with
    | cluster | dpcluster => exact outcome_sendOff_refused inv mem obj _ _
    | selfNode =>
        have self : u.proxy.nodeName = cfg.selfnode := by
          rw [u.proxy.table_kind, kindOf] at table
          by_contra other
          rw [if_neg other] at table
          split at table
          · cases table
          · cases table
        obtain ⟨num, w₁, out, quiet, -⟩ := outcome_addrNum inv mem self name
        obtain ⟨err, w₂, out₂, quiet₂⟩ := outcome_sendOff_refused quiet.inv
          (quiet.proxies ▸ mem) obj
          (fun first => ⟨u.side, cfg.selfnode, .num num, u.prototype, first ++ u.args⟩) u.back
        refine ⟨err, w₂, (outcome_bind_ok out _).trans out₂, quiet₂.inv, ?_, ?_⟩
        · rw [quiet₂.sent, quiet.sent]
        · rw [quiet₂.proxies, quiet.proxies]

theorem outcome_use_self (inv : w.Inv) (mem : u.proxy ∈ w.proxies)
    (self : u.proxy.nodeName = cfg.selfnode)
    (passed : ¬ (ObjRefused val u ∨ NameRefused w u)) :
    ∃ dest w', outcome (use val u) w = (.ok u.back, w') ∧ w'.Inv ∧ Located w' u.proxy dest ∧
      w'.sent = w.sent ++ [u.message val dest] := by
  obtain ⟨obj, name⟩ := not_or.mp passed
  obtain ⟨num, w₁, out, quiet, located⟩ := outcome_addrNum inv mem self name
  obtain ⟨w₂, out₂, inv₂, sent, -, answers⟩ := outcome_sendOff quiet.inv
    (quiet.proxies ▸ mem) obj
    (fun first => ⟨u.side, cfg.selfnode, .num num, u.prototype, first ++ u.args⟩) u.back
  refine ⟨.num num, w₂, ?_, inv₂, ?_, ?_⟩
  · rw [use_eq, u.proxy.table_self self]
    exact (outcome_bind_ok out _).trans out₂
  · rw [Located] at located ⊢
    rwa [answers]
  · rw [sent, quiet.sent, Use.message, self]

theorem outcome_use_dpcluster (inv : w.Inv) (mem : u.proxy ∈ w.proxies)
    (other : u.proxy.nodeName ≠ cfg.selfnode) (direct : u.proxy.clustertype ≠ some "cluster")
    (obj : ¬ ObjRefused val u) :
    ∃ dest w', outcome (use val u) w = (.ok u.back, w') ∧ w'.Inv ∧ Located w' u.proxy dest ∧
      w'.sent = w.sent ++ [u.message val dest] := by
  obtain ⟨w', out, inv', sent, -⟩ := outcome_sendOff inv mem obj
    (fun first => ⟨u.side, u.proxy.nodeName, u.proxy.addr, u.prototype, first ++ u.args⟩) u.back
  refine ⟨u.proxy.addr, w', ?_, inv', ?_, sent⟩
  · rw [use_eq, u.proxy.table_dpcluster other direct]
    exact out
  · rw [Located, if_neg other]

/-- The message is not the one that was meant, and the reply is dropped. -/
theorem outcome_use_cluster (inv : w.Inv) (mem : u.proxy ∈ w.proxies)
    (other : u.proxy.nodeName ≠ cfg.selfnode) (cluster : u.proxy.clustertype = some "cluster")
    (obj : ¬ ObjRefused val u) :
    ∃ w', outcome (use val u) w = (.ok [], w') ∧ w'.Inv ∧
      w'.sent = w.sent ++ [⟨u.side, u.proxy.nodeName, u.proxy.addr, "lua",
        val.ofName u.prototype :: (u.k.toList.map val.ofName ++ u.args)⟩] := by
  obtain ⟨w', out, inv', sent, -⟩ := outcome_sendOff inv mem obj
    (fun first => ⟨u.side, u.proxy.nodeName, u.proxy.addr, "lua",
      val.ofName u.prototype :: (first ++ u.args)⟩) []
  refine ⟨w', ?_, inv', sent⟩
  rw [use_eq, u.proxy.table_cluster other cluster]
  exact out

theorem use_served_iff (inv : w.Inv) (mem : u.proxy ∈ w.proxies) :
    (outcome (use val u) w).2.Inv ∧
      (Served val w (outcome (use val u) w).2 u (outcome (use val u) w).1 ↔
        StepSafe val w (.use u)) := by
  have direct : (∃ dest w', outcome (use val u) w = (.ok u.back, w') ∧ w'.Inv ∧
        Located w' u.proxy dest ∧ w'.sent = w.sent ++ [u.message val dest]) →
      ¬ (ObjRefused val u ∨ NameRefused w u) →
      (outcome (use val u) w).2.Inv ∧
        Served val w (outcome (use val u) w).2 u (outcome (use val u) w).1 := by
    rintro ⟨dest, w', out, inv', located, sent⟩ passed
    rw [out]
    exact ⟨inv', fun refused => absurd refused passed,
      fun _ => ⟨dest, u.back, located, rfl, sent, fun _ => rfl⟩⟩
  by_cases refused : ObjRefused val u ∨ NameRefused w u
  · obtain ⟨err, w', out, quiet⟩ := outcome_use_refused inv mem refused
    rw [out]
    refine ⟨quiet.inv, iff_of_true ?_ ?_⟩
    · exact ⟨fun _ => ⟨⟨err, rfl⟩, quiet.sent⟩, fun passed => absurd refused passed⟩
    · obtain obj | name := refused
      · exact .inr (.inr obj)
      · exact .inl name.1
  · have obj := (not_or.mp refused).1
    by_cases self : u.proxy.nodeName = cfg.selfnode
    · obtain ⟨inv', served⟩ := direct (outcome_use_self inv mem self refused) refused
      exact ⟨inv', iff_of_true served (.inl self)⟩
    · by_cases cluster : u.proxy.clustertype = some "cluster"
      · obtain ⟨w', out, inv', sent⟩ := outcome_use_cluster inv mem self cluster obj
        rw [out]
        refine ⟨inv', iff_of_false ?_ ?_⟩
        · intro served
          obtain ⟨dest, values, -, -, sent', -⟩ := served.served refused
          rw [sent] at sent'
          have args := congrArg Request.args (List.cons.inj (List.append_cancel_left sent')).1
          exact absurd (congrArg List.length args) (by simp [Use.message])
        · rintro (self' | direct | obj')
          · exact self self'
          · exact direct cluster
          · exact obj obj'
      · obtain ⟨inv', served⟩ := direct (outcome_use_dpcluster inv mem self cluster obj) refused
        exact ⟨inv', iff_of_true served (.inr (.inl cluster))⟩

end Uses

section Caches
variable {w : World cfg V} {nodeName : String}

theorem outcome_createProxysvr (w : World cfg V) (addr : Addr) (nodeName : String)
    (clustertype prototype : Option String) :
    (∃ err, outcome (createProxysvr addr nodeName clustertype prototype) w = (.error err, w)) ∨
      ∃ proxy, outcome (createProxysvr addr nodeName clustertype prototype) w =
          (.ok proxy, { w with proxies := w.proxies ++ [proxy] }) ∧
        proxy.id = w.proxies.length ∧ Fits addr (some nodeName) clustertype prototype proxy := by
  unfold createProxysvr
  split
  · exact .inl ⟨_, rfl⟩
  · split
    · exact .inl ⟨_, rfl⟩
    · exact .inr ⟨_, rfl, rfl, ⟨rfl, rfl, rfl, rfl⟩⟩

/-- A new proxy has a number of its own and no upvalues yet. -/
theorem World.Inv.create (inv : w.Inv) {proxy : Proxy cfg} (id : proxy.id = w.proxies.length) :
    World.Inv { w with proxies := w.proxies ++ [proxy] } := by
  refine ⟨?_, ?_, ?_, ?_, ?_, inv.cacheFunc⟩
  · intro addr old held
    obtain ⟨mem, fits⟩ := inv.selfNode addr old held
    exact ⟨List.mem_append_left _ mem, fits⟩
  · intro addr nodeName old held
    obtain ⟨mem, fits⟩ := inv.othernode addr nodeName old held
    exact ⟨List.mem_append_left _ mem, fits⟩
  · intro other mem
    rcases List.mem_append.mp mem with old | new
    · have found := inv.ids other old
      exact List.getElem?_append_left (List.getElem?_eq_some_iff.mp found).1 ▸ found
    · rw [List.mem_singleton] at new
      rw [new, id]
      exact List.getElem?_concat_length
  · intro id side outside
    rw [List.length_append] at outside
    exact inv.fresh id side (Nat.le_of_add_right_le outside)
  · intro other mem side num held
    rcases List.mem_append.mp mem with old | new
    · exact inv.addrNum other old side num held
    · rw [List.mem_singleton] at new
      rw [new, id] at held
      have unset := inv.fresh w.proxies.length side (Nat.le_refl _)
      exact absurd (held.symm.trans unset) nofun

theorem World.Inv.setSelfNode (inv : w.Inv) {proxy : Proxy cfg} (mem : proxy ∈ w.proxies)
    {addr : Addr} (address : proxy.addr = addr) (self : proxy.nodeName = cfg.selfnode) :
    (w.setSelfNode addr proxy).Inv := by
  refine ⟨?_, inv.othernode, inv.ids, inv.fresh, inv.addrNum, inv.cacheFunc⟩
  intro addr' other held
  simp only [World.setSelfNode, Function.update_apply] at held
  split at held
  · rename_i same
    cases held
    exact ⟨mem, address.trans same.symm, self⟩
  · exact inv.selfNode addr' other held

theorem World.Inv.setOthernode (inv : w.Inv) {proxy : Proxy cfg} (mem : proxy ∈ w.proxies)
    {addr : Addr} (address : proxy.addr = addr) (node : proxy.nodeName = nodeName) :
    (w.setOthernode addr nodeName proxy).Inv := by
  refine ⟨inv.selfNode, ?_, inv.ids, inv.fresh, inv.addrNum, inv.cacheFunc⟩
  intro addr' nodeName' other held
  simp only [World.setOthernode, Function.update_apply] at held
  split at held
  · rename_i same
    rw [Function.update_apply] at held
    split at held
    · rename_i sameNode
      cases held
      exact ⟨mem, address.trans same.symm, node.trans sameNode.symm⟩
    · rw [same]
      exact inv.othernode addr nodeName' other held
  · exact inv.othernode addr' nodeName' other held

/-- What `GetProxy` does with a proxy that it makes. -/
theorem outcome_miss (inv : w.Inv) (addr : Addr) (nodeName : String)
    (clustertype prototype : Option String) (store : Proxy cfg → World cfg V → World cfg V)
    (keeps : ∀ proxy, Fits addr (some nodeName) clustertype prototype proxy →
      ∀ w : World cfg V, w.Inv → proxy ∈ w.proxies →
        (store proxy w).Inv ∧ proxy ∈ (store proxy w).proxies) :
    let out := outcome (do
      let proxy ← createProxysvr addr nodeName clustertype prototype
      modify (store proxy)
      return proxy) w
    out.2.Inv ∧ Obtained out.2 addr (some nodeName) clustertype prototype out.1 := by
  intro out
  obtain ⟨err, raised⟩ | ⟨proxy, made, id, fits⟩ :=
    outcome_createProxysvr w addr nodeName clustertype prototype
  · have result : out = (.error err, w) := outcome_bind_error raised _
    rw [result]
    refine ⟨inv, ?_⟩
    rintro proxy ⟨⟩
  · have result : out = (.ok proxy, store proxy { w with proxies := w.proxies ++ [proxy] }) :=
      (outcome_bind_ok made _).trans (outcome_bind_ok (outcome_modify (store proxy) _) _)
    rw [result]
    obtain ⟨inv', mem⟩ := keeps proxy fits _ (inv.create id) (by simp)
    refine ⟨inv', ?_⟩
    rintro proxy ⟨⟩
    exact ⟨fits, mem⟩

theorem getProxy_other (inv : w.Inv) (addr : Addr) (clustertype prototype : Option String)
    (other : nodeName ≠ cfg.selfnode) :
    let out := outcome (getProxy addr (some nodeName) clustertype prototype) w
    out.2.Inv ∧ Obtained out.2 addr (some nodeName) clustertype prototype out.1 := by
  intro out
  simp only [out, getProxy, if_neg other]
  rw [outcome_bind_ok (outcome_get w)]
  cases hit : (w.othernode addr nodeName).filter (·.prototype = prototype) with
  | none =>
      refine outcome_miss inv _ _ _ _ (World.setOthernode addr nodeName) ?_
      intro proxy fits w inv mem
      exact ⟨inv.setOthernode mem fits.addr (Option.some.inj fits.nodeName), mem⟩
  | some proxy =>
      obtain ⟨held, same⟩ := Option.filter_eq_some_iff.mp hit
      obtain ⟨mem, addr, node⟩ := inv.othernode _ _ _ held
      dsimp only
      split
      · refine ⟨inv, ?_⟩
        rintro proxy ⟨⟩
        exact ⟨⟨addr, congrArg some node, Eq.symm (by assumption), by simpa using same⟩, mem⟩
      · refine ⟨inv, ?_⟩
        rintro proxy ⟨⟩

/-- On the own node the cluster type of a cached proxy is not compared. -/
theorem getProxy_self (inv : w.Inv) (addr : Addr) (clustertype prototype : Option String) :
    let out := outcome (getProxy addr (some cfg.selfnode) clustertype prototype) w
    out.2.Inv ∧ (Obtained out.2 addr (some cfg.selfnode) clustertype prototype out.1 ↔
      ∀ proxy, w.selfNode addr = some proxy → proxy.prototype = prototype →
        proxy.clustertype = clustertype) := by
  intro out
  simp only [out, getProxy, if_true]
  rw [outcome_bind_ok (outcome_get w)]
  cases hit : (w.selfNode addr).filter (·.prototype = prototype) with
  | none =>
      have miss := outcome_miss inv addr cfg.selfnode clustertype prototype
        (World.setSelfNode addr)
        fun proxy fits w inv mem =>
          ⟨inv.setSelfNode mem fits.addr (Option.some.inj fits.nodeName), mem⟩
      refine ⟨miss.1, iff_of_true miss.2 ?_⟩
      intro proxy held same
      rw [held] at hit
      simp [Option.filter, same] at hit
  | some proxy =>
      obtain ⟨held, same⟩ := Option.filter_eq_some_iff.mp hit
      obtain ⟨mem, addr, node⟩ := inv.selfNode _ _ held
      refine ⟨inv, ?_⟩
      constructor
      · intro fits other held' _
        rw [held] at held'
        cases held'
        exact (fits proxy rfl).1.clustertype
      · intro safe
        rintro proxy ⟨⟩
        have sameProto : proxy.prototype = prototype := by simpa using same
        exact ⟨⟨addr, congrArg some node, safe proxy held sameProto, sameProto⟩, mem⟩

end Caches

section Runs
variable {val : Values V}

theorem getProxy_correct_iff {w : World cfg V} (inv : w.Inv) (addr : Addr)
    (nodeName clustertype prototype : Option String) :
    let out := outcome (getProxy addr nodeName clustertype prototype) w
    out.2.Inv ∧ (StepCorrect val w out.2 (.getProxy addr nodeName clustertype prototype)
      (.proxy out.1) ↔ StepSafe val w (.getProxy addr nodeName clustertype prototype)) := by
  intro out
  cases nodeName with
  | none =>
      refine ⟨inv, iff_of_true ?_ nofun⟩
      rintro proxy ⟨⟩
  | some nodeName =>
      by_cases self : nodeName = cfg.selfnode
      · subst self
        obtain ⟨inv', iff⟩ := getProxy_self inv addr clustertype prototype
        refine ⟨inv', iff.trans ?_⟩
        simp only [StepSafe, forall_const]
      · obtain ⟨inv', fits⟩ := getProxy_other inv addr clustertype prototype self
        refine ⟨inv', iff_of_true fits ?_⟩
        intro own
        exact absurd (Option.some.inj own) self

theorem step_correct_iff (w : World cfg V) (e : Event cfg V) (w' : World cfg V)
    (result : Result cfg V) (inv : w.Inv) (step : w.step val e = some (w', result)) :
    w'.Inv ∧ (StepCorrect val w w' e result ↔ StepSafe val w e) := by
  cases e with
  | getProxy addr nodeName clustertype prototype =>
      cases step
      exact getProxy_correct_iff inv addr nodeName clustertype prototype
  | use u =>
      simp only [World.step] at step
      split at step
      · cases step
        exact use_served_iff inv (by assumption)
      · cases step

/-- Over every run: each step is right exactly if each meets the condition. -/
theorem proxies_answer_iff {trace : List (Event cfg V × World cfg V × Result cfg V × World cfg V)}
    {w : World cfg V} (reach : (machine val).record.Reach trace w) :
    (∀ x ∈ trace, StepCorrect val x.2.1 x.2.2.2 x.1 x.2.2.1) ↔
      ∀ x ∈ trace, StepSafe val x.2.1 x.1 := by
  refine (reach.record_forall_iff World.Inv .init
    (P := fun w e result w' => StepCorrect val w w' e result)
    (Q := fun w e _ _ => StepSafe val w e) ?_ ?_).2
  · intro w e w' result inv step
    exact (step_correct_iff w e w' result inv step).1
  · intro w e w' result inv step
    exact (step_correct_iff w e w' result inv step).2

def gameNode : Config := ⟨"gameserver", "a:1", false, fun _ => none, [], fun _ => none, []⟩

def plainText : Values String := ⟨fun _ => false, fun _ => false, id⟩

def ownNode (clustertype : Option String) : Event gameNode String :=
  .getProxy (.name ".svc") (some "a:1") clustertype none

def ownProxy : Proxy gameNode :=
  ⟨0, .name ".svc", "a:1", none, none, .selfNode, .selfNode, by rfl, by rfl⟩

def dpclusterProxy : Proxy gameNode :=
  ⟨1, .name ".svc", "b:2", none, none, .dpcluster, .dpcluster, by rfl, by rfl⟩

/-- Two proxies of a service, of the own node and of another, each asked for twice, with the
calls and the message through them. -/
def twoNodes : List (Event gameNode String) :=
  [ownNode none, .use ⟨ownProxy, .call, some "get", [], fun _ => some 5, ["v"]⟩, ownNode none,
    .getProxy (.name ".svc") (some "b:2") none none,
    .getProxy (.name ".svc") (some "b:2") none none,
    .use ⟨dpclusterProxy, .call, none, ["x"], fun _ => none, ["w"]⟩,
    .use ⟨dpclusterProxy, .send, some "set", ["y"], fun _ => none, []⟩,
    .use ⟨ownProxy, .call, some "get", ["z"], fun _ => none, ["v"]⟩]

/-- The second proxies are the cached ones, and the name is looked up once. -/
theorem proxies_answer_twoNodes :
    ∃ trace w, (machine plainText).record.Reach trace w ∧ trace.map Prod.fst = twoNodes ∧
      w.proxies = [ownProxy, dpclusterProxy] ∧ w.answers = [(".svc", 5)] ∧
      w.sent = [⟨.call, "a:1", .num 5, "lua", ["get"]⟩,
        ⟨.call, "b:2", .name ".svc", "lua", ["x"]⟩,
        ⟨.send, "b:2", .name ".svc", "lua", ["set", "y"]⟩,
        ⟨.call, "a:1", .num 5, "lua", ["get", "z"]⟩] ∧
      ∀ x ∈ trace, StepCorrect plainText x.2.1 x.2.2.2 x.1 x.2.2.1 := by
  have ran : ∃ trace w, (machine plainText).record.run .init twoNodes = some (trace, w) ∧
      trace.map Prod.fst = twoNodes ∧ w.proxies = [ownProxy, dpclusterProxy] ∧
      w.answers = [(".svc", 5)] ∧
      w.sent = [⟨.call, "a:1", .num 5, "lua", ["get"]⟩,
        ⟨.call, "b:2", .name ".svc", "lua", ["x"]⟩,
        ⟨.send, "b:2", .name ".svc", "lua", ["set", "y"]⟩,
        ⟨.call, "a:1", .num 5, "lua", ["get", "z"]⟩] ∧
      trace.all (fun x => (x.2.1.selfNode (.name ".svc")).all fun p => p.clustertype = none) :=
    ⟨_, _, rfl, rfl, rfl, rfl, rfl, rfl⟩
  obtain ⟨trace, w, ran, labels, proxies, answers, sent, own⟩ := ran
  have reach := Machine.reach_run ran
  refine ⟨trace, w, reach, labels, proxies, answers, sent, (proxies_answer_iff reach).mpr ?_⟩
  intro x mem
  have cached := List.all_eq_true.mp own x mem
  have label : x.1 ∈ trace.map Prod.fst := List.mem_map_of_mem mem
  have asked : StepSafe plainText x.2.1 (ownNode none) := by
    intro _ proxy held _
    rw [held] at cached
    exact of_decide_eq_true cached
  rw [labels] at label
  simp only [twoNodes, List.mem_cons, List.not_mem_nil, or_false] at label
  rcases label with here | here | here | here | here | here | here | here
  · rw [here]
    exact asked
  · rw [here]
    exact .inl rfl
  · rw [here]
    exact asked
  · rw [here]
    exact fun other => absurd (Option.some.inj other) (by decide)
  · rw [here]
    exact fun other => absurd (Option.some.inj other) (by decide)
  · rw [here]
    exact .inr (.inl (by decide))
  · rw [here]
    exact .inr (.inl (by decide))
  · rw [here]
    exact .inl rfl

def clusterProxy : Proxy gameNode :=
  ⟨0, .name ".svc", "b:2", some "cluster", none, .cluster, .cluster, by rfl, by rfl⟩

def clusterCall : Use gameNode String :=
  ⟨clusterProxy, .call, some "get", [], fun _ => none, ["v"]⟩

/-- Through `cluster` the reply `v` is dropped and the prototype is in the message, and on
the own node the second `GetProxy` is given the proxy of another cluster type. -/
theorem proxies_fail :
    (∃ trace w w', (machine plainText).Reach trace w ∧
      w.step plainText (.use clusterCall) = some (w', .values (.ok [])) ∧
      w'.sent = [⟨.call, "b:2", .name ".svc", "lua", ["lua", "get"]⟩] ∧
      ¬ StepCorrect plainText w w' (.use clusterCall) (.values (.ok []))) ∧
    ∃ trace w w' proxy, (machine plainText).Reach trace w ∧
      w.step plainText (ownNode (some "cluster")) = some (w', .proxy (.ok proxy)) ∧
      ¬ StepCorrect plainText w w' (ownNode (some "cluster")) (.proxy (.ok proxy)) := by
  constructor
  · refine ⟨_, _, _, Machine.Reach.init.next
      (e := .getProxy (.name ".svc") (some "b:2") (some "cluster") none) rfl, rfl, rfl, ?_⟩
    intro served
    obtain ⟨_, _, _, returned, _, replied⟩ := served.served fun refused => by
      obtain obj | name := refused
      · cases obj
      · exact absurd name.1 (by decide)
    cases returned
    exact absurd (replied rfl) nofun
  · refine ⟨_, _, _, _, Machine.Reach.init.next
      (e := ownNode none) rfl, rfl, ?_⟩
    intro correct
    exact absurd (correct _ rfl).1.clustertype nofun

end Runs

end Qiuqiu.Rpc.Proxysvr
