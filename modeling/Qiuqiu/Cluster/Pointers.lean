import Mathlib.Data.List.Basic
import Qiuqiu.Base.Outcome
import Qiuqiu.Rpc.ModCall

/-!
What a node sends to another one (lualib/dpcluster.lua). A pointer means nothing
there, so each function looks for a userdata among the arguments of a message
before it packs them. `call_notips` looks with `ipairs`, which ends at the first
`nil`, and packs what stands behind it.
-/
namespace Qiuqiu.Cluster.Pointers
open Triple
open Rpc.ModCall (Addr)

inductive Value where
  | nil
  | bool (b : Bool)
  | num (n : Int)
  | str (s : String)
  | table (ref : Nat)
  | func (ref : Nat)
  | thread (ref : Nat)
  | userdata (ref : Nat)
  deriving DecidableEq

def Value.isUserdata : Value → Bool
  | .userdata _ => true
  | _ => false

/-- `pairs({...})`: every value that is not `nil`, with its place. -/
def pairs (args : List Value) : List (Value × Nat) :=
  (args.zipIdx 1).filter (·.1 ≠ .nil)

/-- `ipairs({...})`: the values up to the first `nil`. -/
def ipairs (args : List Value) : List (Value × Nat) :=
  (args.zipIdx 1).takeWhile (·.1 ≠ .nil)

/-- A `msg, sz`. -/
structure Packed where
  msg : Nat
  sz : Nat
  deriving DecidableEq

/-- The functions of a protocol of skynet, if it has them. -/
structure Proto where
  pack : Option (List Value → Except String Packed)
  unpack : Option (Packed → Except String (List Value))

inductive Cmd where
  | req
  | reqNotips
  | push
  | pushNotips
  deriving DecidableEq

/-- A message to the service `dpclusterd` of the own node; only a request has a time. -/
structure Message where
  cmd : Cmd
  overtime : Option Int
  node : String
  address : Addr
  prototype : Value
  body : Packed
  deriving DecidableEq

inductive Effect where
  | packs (args : List Value)
  | forwards (m : Message)
  | trashes (body : Packed)

def Effect.forwarded : Effect → Option Message
  | .forwards m => some m
  | _ => none

/-- What the functions meet: the protocols of the service, what `dpclusterd`
answers to a request and what `skynet.send` returns. -/
structure Env where
  isTestserver : Bool
  proto : Value → Option Proto
  reply : Message → Except String Packed
  sent : Message → List Value

abbrev Run (α : Type) := ExceptT String (StateM (List Effect)) α

def emit (e : Effect) : Run Unit := modify (· ++ [e])

def overtimeDefault : Int := 300
def overtimeMax : Int := 6000

/-- Where a message goes and what it carries; a `prototype` that is left out is `nil`. -/
structure Args where
  node : String
  address : Addr
  prototype : Value
  args : List Value

section Functions
variable (env : Env)

def getPrototypePack (name : Value) : Option (List Value → Except String Packed) :=
  (env.proto name).bind Proto.pack

def getPrototypeUnpack (name : Value) : Option (Packed → Except String (List Value)) :=
  (env.proto name).bind Proto.unpack

/-- The loop over the arguments. -/
def refuse (a : Args) (entries : List (Value × Nat)) : Run Unit :=
  match entries.find? (·.1.isUserdata) with
  | some (_, no) =>
      throw s!"node:{a.node}, address:{a.address.text}, elem no:{no} is userdata"
  | none => return ()

def packWith (pack : List Value → Except String Packed) (args : List Value) : Run Packed := do
  emit (.packs args)
  match pack args with
  | .ok body => return body
  | .error err => throw err

def skynetCall (m : Message) : Run Packed := do
  emit (.forwards m)
  match env.reply m with
  | .ok body => return body
  | .error err => throw err

def skynetSend (m : Message) : Run (List Value) := do
  emit (.forwards m)
  return env.sent m

def retFunc (body : Packed) (unpacked : Except String (List Value)) : Run (List Value) := do
  emit (.trashes body)
  match unpacked with
  | .ok values =>
      if env.isTestserver && (pairs values).any (·.1.isUserdata) then
        throw "dpcluster ret has point error!"
      return values
  | .error err => throw err

/-- `_dp_call` and `call_notips`, which differ in the loop and the command. -/
def request (entries : List Value → List (Value × Nat)) (cmd : Cmd) (overtime : Int) (a : Args) :
    Run (List Value) := do
  refuse a (entries a.args)
  match getPrototypePack env a.prototype, getPrototypeUnpack env a.prototype with
  | some pack, some unpack =>
      let body ← packWith pack a.args
      let answer ← skynetCall env ⟨cmd, some overtime, a.node, a.address, a.prototype, body⟩
      retFunc env answer (unpack answer)
  | _, _ => throw "assertion failed!"

/-- `send` and `send_notips`, which differ in the command. -/
def transfer (cmd : Cmd) (a : Args) : Run (List Value) := do
  refuse a (pairs a.args)
  match getPrototypePack env a.prototype with
  | some pack =>
      let body ← packWith pack a.args
      skynetSend env ⟨cmd, none, a.node, a.address, a.prototype, body⟩
  | none => throw "assertion failed!"

def dpCall (overtime : Int) (a : Args) : Run (List Value) := request env pairs .req overtime a

def callOt (overtime : Int) (a : Args) : Run (List Value) := do
  if 0 < overtime ∧ overtime ≤ overtimeMax then dpCall env overtime a
  else throw "assertion failed!"

def call (a : Args) : Run (List Value) := dpCall env overtimeDefault a

def send (a : Args) : Run (List Value) := transfer env .push a

def sendNotips (a : Args) : Run (List Value) := transfer env .pushNotips a

def callNotips (a : Args) : Run (List Value) := request env ipairs .reqNotips overtimeDefault a

end Functions

/-- The functions that carry a message to another node. -/
inductive Variant where
  | call
  | callOt (overtime : Int)
  | send
  | sendNotips
  | callNotips
  deriving DecidableEq

def Variant.run (env : Env) (a : Args) : Variant → Run (List Value)
  | .call => Pointers.call env a
  | .callOt overtime => Pointers.callOt env overtime a
  | .send => Pointers.send env a
  | .sendNotips => Pointers.sendNotips env a
  | .callNotips => Pointers.callNotips env a

/-- The values that the loop of a function visits. -/
def Variant.visits (args : List Value) : Variant → List Value
  | .callNotips => args.takeWhile (· ≠ .nil)
  | _ => args

/-- A protocol that can carry a request and its answer. -/
def Registered (env : Env) (name : Value) : Prop :=
  (getPrototypePack env name).isSome ∧ (getPrototypeUnpack env name).isSome

/-- The assertions of a function hold. -/
def Variant.Admits (env : Env) (a : Args) : Variant → Prop
  | .call | .callNotips => Registered env a.prototype
  | .callOt overtime => (0 < overtime ∧ overtime ≤ overtimeMax) ∧ Registered env a.prototype
  | .send | .sendNotips => (getPrototypePack env a.prototype).isSome

def Variant.message (a : Args) (body : Packed) : Variant → Message
  | .call => ⟨.req, some overtimeDefault, a.node, a.address, a.prototype, body⟩
  | .callOt overtime => ⟨.req, some overtime, a.node, a.address, a.prototype, body⟩
  | .send => ⟨.push, none, a.node, a.address, a.prototype, body⟩
  | .sendNotips => ⟨.pushNotips, none, a.node, a.address, a.prototype, body⟩
  | .callNotips => ⟨.reqNotips, some overtimeDefault, a.node, a.address, a.prototype, body⟩

/-- The bytes that the arguments become, if their protocol can pack them. -/
def packed (env : Env) (a : Args) : Option Packed :=
  (getPrototypePack env a.prototype).bind fun pack => (pack a.args).toOption

theorem map_pairs (args : List Value) : (pairs args).map Prod.fst = args.filter (· ≠ .nil) := by
  conv_rhs => rw [← List.zipIdx_map_fst 1 args, List.filter_map]
  rfl

theorem map_ipairs (args : List Value) :
    (ipairs args).map Prod.fst = args.takeWhile (· ≠ .nil) := by
  conv_rhs => rw [← List.zipIdx_map_fst 1 args, List.takeWhile_map]
  rfl

/-- What `pairs` skips is no userdata. -/
theorem any_pairs (args : List Value) :
    ((pairs args).map Prod.fst).any Value.isUserdata = args.any Value.isUserdata := by
  rw [map_pairs, List.any_filter]
  congr 1
  funext v
  cases v with
  | nil | bool _ | num _ | str _ | table _ | func _ | thread _ | userdata _ => rfl

section Outcomes
variable {env : Env} {a : Args} {entries : List Value → List (Value × Nat)} {cmd : Cmd}
  {w : List Effect}

theorem refuse_found {found : List (Value × Nat)}
    (user : (found.map Prod.fst).any Value.isUserdata) :
    ∃ err, outcome (refuse a found) w = (.error err, w) := by
  rw [List.any_map] at user
  have isSome : (found.find? (·.1.isUserdata)).isSome :=
    List.find?_isSome.mpr (List.any_eq_true.mp user)
  obtain ⟨⟨v, no⟩, first⟩ := Option.isSome_iff_exists.mp isSome
  simp only [refuse, first]
  exact ⟨_, outcome_throw _ w⟩

theorem refuse_clear {found : List (Value × Nat)}
    (clear : (found.map Prod.fst).any Value.isUserdata = false) :
    outcome (refuse a found) w = (.ok (), w) := by
  rw [List.any_map] at clear
  have nothing : found.find? (·.1.isUserdata) = none := by
    rw [List.find?_eq_none]
    simpa using clear
  simp only [refuse, nothing]
  rfl

theorem packWith_ok {pack : List Value → Except String Packed} {args : List Value} {body : Packed}
    (packed : pack args = .ok body) :
    outcome (packWith pack args) w = (.ok body, w ++ [.packs args]) := by
  simp only [packWith, packed]
  rfl

theorem packWith_error {pack : List Value → Except String Packed} {args : List Value}
    {err : String} (fails : pack args = .error err) :
    outcome (packWith pack args) w = (.error err, w ++ [.packs args]) := by
  simp only [packWith, fails]
  rfl

theorem skynetCall_effects (env : Env) (m : Message) (w : List Effect) :
    (∃ body, outcome (skynetCall env m) w = (.ok body, w ++ [.forwards m])) ∨
      ∃ err, outcome (skynetCall env m) w = (.error err, w ++ [.forwards m]) := by
  simp only [skynetCall]
  cases reply : env.reply m with
  | ok body => exact .inl ⟨body, rfl⟩
  | error err => exact .inr ⟨err, rfl⟩

theorem retFunc_effects (body : Packed) (unpacked : Except String (List Value))
    (w : List Effect) : (outcome (retFunc env body unpacked) w).2 = w ++ [.trashes body] := by
  cases unpacked with
  | error err => rfl
  | ok values =>
      simp only [retFunc]
      split <;> rfl

theorem request_refuses (overtime : Int)
    (stops : ((entries a.args).map Prod.fst).any Value.isUserdata ∨ ¬ Registered env a.prototype) :
    ∃ err, outcome (request env entries cmd overtime a) w = (.error err, w) := by
  cases user : ((entries a.args).map Prod.fst).any Value.isUserdata with
  | true =>
      obtain ⟨err, raised⟩ := refuse_found (a := a) (w := w) user
      exact ⟨err, outcome_bind_error raised _⟩
  | false =>
      refine ⟨"assertion failed!", ?_⟩
      rw [request, outcome_bind_ok (refuse_clear user)]
      split
      · rename_i pack unpack hasPack hasUnpack
        simp [user, Registered, hasPack, hasUnpack] at stops
      · rfl

/-- A request that the loop lets through packs, and forwards what it packed. -/
theorem request_packs (overtime : Int)
    (clear : ((entries a.args).map Prod.fst).any Value.isUserdata = false)
    (registered : Registered env a.prototype) :
    ∃ rest, (outcome (request env entries cmd overtime a) []).2 = .packs a.args :: rest ∧
      rest.filterMap Effect.forwarded = (packed env a).toList.map
        (⟨cmd, some overtime, a.node, a.address, a.prototype, ·⟩) := by
  obtain ⟨pack, hasPack⟩ := Option.isSome_iff_exists.mp registered.1
  obtain ⟨unpack, hasUnpack⟩ := Option.isSome_iff_exists.mp registered.2
  rw [request, outcome_bind_ok (refuse_clear clear)]
  simp only [packed, hasPack, hasUnpack, Option.bind_some]
  cases result : pack a.args with
  | error err =>
      rw [outcome_bind_error (packWith_error result)]
      exact ⟨[], rfl, rfl⟩
  | ok body =>
      rw [outcome_bind_ok (packWith_ok result)]
      cases skynetCall_effects env
        ⟨cmd, some overtime, a.node, a.address, a.prototype, body⟩ ([] ++ [.packs a.args]) with
      | inl answered =>
          obtain ⟨answer, out⟩ := answered
          rw [outcome_bind_ok out, retFunc_effects]
          exact ⟨_, rfl, rfl⟩
      | inr failed =>
          obtain ⟨err, out⟩ := failed
          rw [outcome_bind_error out]
          exact ⟨_, rfl, rfl⟩

theorem transfer_refuses
    (stops : a.args.any Value.isUserdata ∨ ¬ (getPrototypePack env a.prototype).isSome) :
    ∃ err, outcome (transfer env cmd a) w = (.error err, w) := by
  rw [← any_pairs] at stops
  cases user : ((pairs a.args).map Prod.fst).any Value.isUserdata with
  | true =>
      obtain ⟨err, raised⟩ := refuse_found (a := a) (w := w) user
      exact ⟨err, outcome_bind_error raised _⟩
  | false =>
      rw [user, Option.not_isSome_iff_eq_none] at stops
      refine ⟨"assertion failed!", ?_⟩
      rw [transfer, outcome_bind_ok (refuse_clear user)]
      simp only [stops.resolve_left Bool.false_ne_true]
      rfl

theorem transfer_packs (clear : a.args.any Value.isUserdata = false)
    (registered : (getPrototypePack env a.prototype).isSome) :
    ∃ rest, (outcome (transfer env cmd a) []).2 = .packs a.args :: rest ∧
      rest.filterMap Effect.forwarded = (packed env a).toList.map
        (⟨cmd, none, a.node, a.address, a.prototype, ·⟩) := by
  obtain ⟨pack, hasPack⟩ := Option.isSome_iff_exists.mp registered
  rw [← any_pairs] at clear
  rw [transfer, outcome_bind_ok (refuse_clear clear)]
  simp only [packed, hasPack, Option.bind_some]
  cases result : pack a.args with
  | error err =>
      rw [outcome_bind_error (packWith_error result)]
      exact ⟨[], rfl, rfl⟩
  | ok body =>
      rw [outcome_bind_ok (packWith_ok result)]
      exact ⟨_, rfl, rfl⟩

end Outcomes

theorem callOt_inTime (env : Env) (a : Args) {overtime : Int}
    (inTime : 0 < overtime ∧ overtime ≤ overtimeMax) :
    callOt env overtime a = dpCall env overtime a :=
  if_pos inTime

namespace Variant
variable {env : Env} {a : Args}

/-- A userdata that the loop visits, or an assertion that fails: nothing is packed. -/
theorem run_refuses (v : Variant)
    (stops : (v.visits a.args).any Value.isUserdata ∨ ¬ v.Admits env a) :
    ∃ err, outcome (v.run env a) [] = (.error err, []) := by
  cases v with
  | call =>
      apply request_refuses
      rwa [any_pairs]
  | callNotips =>
      apply request_refuses
      rwa [map_ipairs]
  | send | sendNotips => exact transfer_refuses stops
  | callOt overtime =>
      by_cases inTime : 0 < overtime ∧ overtime ≤ overtimeMax
      · change ∃ err, outcome (Pointers.callOt env overtime a) [] = (.error err, [])
        rw [callOt_inTime env a inTime]
        apply request_refuses
        rw [any_pairs]
        exact stops.imp_right fun unmet registered => unmet ⟨inTime, registered⟩
      · exact ⟨_, congrArg (outcome · []) (if_neg inTime)⟩

/-- A message that is let through is packed, and forwarded once if that succeeds. -/
theorem run_packs (v : Variant) (clear : (v.visits a.args).any Value.isUserdata = false)
    (admits : v.Admits env a) :
    ∃ rest, (outcome (v.run env a) []).2 = .packs a.args :: rest ∧
      rest.filterMap Effect.forwarded = (packed env a).toList.map (v.message a ·) := by
  cases v with
  | call => exact request_packs _ ((any_pairs a.args).trans clear) admits
  | callNotips =>
      rw [visits, ← map_ipairs] at clear
      exact request_packs _ clear admits
  | send | sendNotips => exact transfer_packs clear admits
  | callOt overtime =>
      change ∃ rest, (outcome (Pointers.callOt env overtime a) []).2 = _ ∧ _
      rw [callOt_inTime env a admits.1]
      exact request_packs _ ((any_pairs a.args).trans clear) admits.2

/-- The loops other than that of `call_notips` visit every argument. -/
theorem visits_of_ne {v : Variant} (pairs : v ≠ .callNotips) (args : List Value) :
    v.visits args = args := by
  cases v with
  | callNotips => exact absurd rfl pairs
  | call | callOt _ | send | sendNotips => rfl

end Variant

/-- No pointer leaves the node: a userdata raises before anything is packed, and any
other message is forwarded once. -/
def KeepsPointers (env : Env) (a : Args) (v : Variant) : Prop :=
  if a.args.any Value.isUserdata then ∃ err, outcome (v.run env a) [] = (.error err, [])
  else ∃ body, packed env a = some body ∧
    (outcome (v.run env a) []).2.filterMap Effect.forwarded = [v.message a body]

/-- A message without a userdata is forwarded if and only if it can be: the
assertions hold and the protocol packs it. -/
theorem forwards_iff (env : Env) (a : Args) (v : Variant)
    (clear : a.args.any Value.isUserdata = false) :
    (∃ body, packed env a = some body ∧
      (outcome (v.run env a) []).2.filterMap Effect.forwarded = [v.message a body]) ↔
    v.Admits env a ∧ (packed env a).isSome := by
  have unseen : (v.visits a.args).any Value.isUserdata = false := by
    cases v with
    | callNotips =>
        rw [List.any_eq_false] at clear ⊢
        intro x mem
        exact clear x ((List.takeWhile_sublist _).mem mem)
    | call | callOt _ | send | sendNotips => exact clear
  constructor
  · rintro ⟨body, isPacked, once⟩
    refine ⟨?_, Option.isSome_iff_exists.mpr ⟨body, isPacked⟩⟩
    by_contra unmet
    obtain ⟨err, raised⟩ := v.run_refuses (.inr unmet)
    rw [raised] at once
    cases once
  · rintro ⟨admits, canPack⟩
    obtain ⟨body, isPacked⟩ := Option.isSome_iff_exists.mp canPack
    obtain ⟨rest, effects, once⟩ := v.run_packs unseen admits
    refine ⟨body, isPacked, ?_⟩
    rw [effects, List.filterMap_cons_none rfl, once, isPacked]
    rfl

/-- A userdata raises before anything is packed, unless it stands behind the first
`nil` of a `call_notips` and none stands before it. -/
theorem raises_iff (env : Env) (a : Args) (v : Variant) (user : a.args.any Value.isUserdata) :
    (∃ err, outcome (v.run env a) [] = (.error err, [])) ↔
    (v = .callNotips → (a.args.takeWhile (· ≠ .nil)).any Value.isUserdata ∨
      ¬ Registered env a.prototype) := by
  constructor
  · rintro ⟨err, raised⟩ rfl
    by_contra! passes
    obtain ⟨rest, effects, -⟩ :=
      Variant.callNotips.run_packs (Bool.eq_false_iff.mpr passes.1) passes.2
    rw [raised] at effects
    cases effects
  · intro seen
    apply v.run_refuses
    by_cases notips : v = .callNotips
    · subst notips
      exact seen rfl
    · rw [Variant.visits_of_ne notips]
      exact .inl user

/-- Exactly which messages keep the pointers of a node from leaving it. -/
theorem keepsPointers_iff (env : Env) (a : Args) (v : Variant) :
    KeepsPointers env a v ↔
      if a.args.any Value.isUserdata then
        v = .callNotips → (a.args.takeWhile (· ≠ .nil)).any Value.isUserdata ∨
          ¬ Registered env a.prototype
      else v.Admits env a ∧ (packed env a).isSome := by
  rw [KeepsPointers]
  split
  · rename_i user
    exact raises_iff env a v user
  · rename_i clear
    exact forwards_iff env a v (Bool.eq_false_iff.mpr clear)

/-- A service that knows the protocol `lua`, and a node that answers. -/
def luaService : Env where
  isTestserver := false
  proto name :=
    if name = .str "lua" then some ⟨some fun _ => .ok ⟨4096, 16⟩, some fun _ => .ok []⟩ else none
  reply _ := .ok ⟨8192, 1⟩
  sent _ := [.num 0]

/-- `call_notips(node, ".gameserver", "lua", nil, ptr)` sends the pointer. -/
theorem callNotips_leaks :
    ¬ KeepsPointers luaService
      ⟨"10.0.0.2:7000", .name ".gameserver", .str "lua", [.nil, .userdata 65536]⟩ .callNotips := by
  have user : [Value.nil, .userdata 65536].any Value.isUserdata := rfl
  rw [KeepsPointers, if_pos user]
  rintro ⟨err, raised⟩
  cases raised

end Qiuqiu.Cluster.Pointers
