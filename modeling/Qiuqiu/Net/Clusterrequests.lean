import Mathlib.Data.List.Forall2
import Qiuqiu.Base.Outcome
import Qiuqiu.Net.Clusteragent
import Qiuqiu.Net.Clusterwire

/-!
Requests from node to node, whole: however packages overtake each other and however much of
the stream has come, what the agent has of a session are the first requests sent with it,
complete and in order.
-/
namespace Qiuqiu.Net.Clusteragent
open Clusterpack Netpack Overtaking
open Triple (of_bind of_map)

/-- A request, with the session it is written with. -/
structure Request where
  addr : Address
  session : Nat
  msg : Bytes
  isPush : Bool
  deriving Repr, DecidableEq

def Request.outcome (r : Request) : Outcome := .request (some r.addr) r.session r.msg r.isPush

/-- What an address is on the wire. -/
def wireAddress : Address → Address
  | .id addr => .id (addr % 2 ^ 32)
  | .name name => .name name

/-- The parts of a message. -/
def parts (session : Nat) : Nat → Bytes → List Unpacked
  | 0, _ => []
  | part + 1, msg =>
      if msg.length > multiPart then
        .part session (msg.take multiPart) true :: parts session part (msg.drop multiPart)
      else .part session msg false :: parts session part []

/-- The packages of a request, unpacked. -/
def Request.pieces (r : Request) : List Unpacked :=
  if r.msg.length < multiPart then [.request r.addr r.session r.msg r.isPush]
  else
    .multi r.addr r.session r.msg.length r.isPush ::
      parts r.session ((r.msg.length - 1) / multiPart + 1) r.msg

/-- What a package carries. -/
def contents (p : Packet) : Unpacked :=
  match unpackrequest (p.bytes.drop 2) with
  | .ok unpacked => unpacked
  | .error _ => .trace []

/-- A package is a frame, and carries something for its session. -/
structure Sound (p : Packet) : Prop where
  frame : pack (p.bytes.drop 2) = some p.bytes
  unpacks : unpackrequest (p.bytes.drop 2) = .ok (contents p)
  session_eq : session (contents p) = some p.session

variable {payload msg : Bytes} {bytes : Bytes} {k n next : Nat} {u : Unpacked} {isPush : Bool}
  {addr : Address} {request : Bytes} {padding : List Bytes} {r : Request} {large : LargeRequest}
  {p : Packet} {l ps : List Packet}

theorem sound_of_package (urgent : Bool) (packed : package payload = .ok bytes)
    (unpacks : unpackrequest payload = .ok u) (own : session u = some k) :
    Sound ⟨urgent, k, bytes⟩ ∧ contents ⟨urgent, k, bytes⟩ = u := by
  have frame := pack_of_package packed
  have behind := drop_of_package packed
  have carried : contents ⟨urgent, k, bytes⟩ = u := by
    rw [contents]
    dsimp only
    rw [behind, unpacks]
  refine ⟨⟨?_, ?_, ?_⟩, carried⟩
  · dsimp only
    rw [behind, frame]
  · rw [carried]
    dsimp only
    rw [behind, unpacks]
  · rw [carried, own]

theorem Sound.of_urgent (sound : Sound p) (urgent : Bool) : Sound { p with urgent := urgent } :=
  ⟨sound.frame, sound.unpacks, sound.session_eq⟩

/-- The parts that are sent are the parts. -/
theorem packreqMulti_parts (small : k < 2 ^ 32) (packed : packreqMulti k n msg = .ok padding) :
    (∀ p ∈ padding.map fun part => Packet.mk false k part, Sound p) ∧
      (padding.map fun part => Packet.mk false k part).map contents = parts k n msg := by
  induction n generalizing msg padding with
  | zero =>
      cases packed
      exact ⟨fun p mem => absurd mem List.not_mem_nil, rfl⟩
  | succ n ih =>
      rw [packreqMulti] at packed
      obtain ⟨first, packed_first, packed⟩ := of_bind packed
      obtain ⟨rest, packed_rest, packed⟩ := of_bind packed
      cases packed
      obtain ⟨sound, carried⟩ := ih packed_rest
      rw [List.map_cons, List.map_cons, parts]
      by_cases long : msg.length > multiPart
      · rw [if_pos long] at packed_first packed_rest carried
        rw [if_pos long] at packed_first
        obtain ⟨first_sound, first_carries⟩ := sound_of_package false packed_first
          (unpack_part small true (msg.take multiPart)) rfl
        rw [if_pos long, first_carries, carried]
        exact ⟨List.forall_mem_cons.mpr ⟨first_sound, sound⟩, rfl⟩
      · rw [if_neg long] at packed_first packed_rest carried
        rw [if_neg long] at packed_first
        obtain ⟨first_sound, first_carries⟩ := sound_of_package false packed_first
          (unpack_part small false (msg.take msg.length)) rfl
        rw [if_neg long, first_carries, carried, List.take_length, List.drop_length]
        exact ⟨List.forall_mem_cons.mpr ⟨first_sound, sound⟩, rfl⟩

theorem parts_length (session n : Nat) (msg : Bytes) : (parts session n msg).length = n := by
  induction n generalizing msg with
  | zero => rfl
  | succ n ih =>
      rw [parts]
      split
      · exact congrArg (· + 1) (ih _)
      · exact congrArg (· + 1) (ih _)

/-- The session a request is written with. -/
def wireSession (k : Nat) (msg : Bytes) (isPush : Bool) : Nat :=
  if isPush = true ∧ msg.length < multiPart then 0 else k

/-- What the first package of a request carries. -/
def head (addr : Address) (k : Nat) (msg : Bytes) (isPush : Bool) : Unpacked :=
  if msg.length < multiPart then .request addr k msg isPush else .multi addr k msg.length isPush

def partCount (msg : Bytes) : Nat :=
  if msg.length < multiPart then 0 else (msg.length - 1) / multiPart + 1

theorem wire_small (short : msg.length < multiPart) :
    wireSession k msg isPush = if isPush then 0 else k := by
  rw [wireSession]
  cases isPush with
  | false => rw [if_neg (fun both => by cases both.1), if_neg (fun push => by cases push)]
  | true => rw [if_pos ⟨rfl, short⟩, if_pos rfl]

theorem wire_large (long : ¬ msg.length < multiPart) : wireSession k msg isPush = k := by
  rw [wireSession, if_neg (fun both => long both.2)]

/-- Only a push is written with session 0. -/
theorem wire_push (low : 1 ≤ k) : decide ((if isPush then 0 else k) = 0) = isPush := by
  cases isPush with
  | false => exact decide_eq_false (by simp only [Bool.false_eq_true, if_false]; omega)
  | true => exact decide_eq_true rfl

theorem packreqNumber_head {addr multipak : Nat} (low : 1 ≤ k) (high : k ≤ 0x7fffffff)
    (length : msg.length < 2 ^ 31)
    (packed : packreqNumber addr k msg isPush = .ok (request, multipak)) :
    multipak = partCount msg ∧ Sound ⟨true, wireSession k msg isPush, request⟩ ∧
      contents ⟨true, wireSession k msg isPush, request⟩ =
        head (.id (addr % 2 ^ 32)) (wireSession k msg isPush) msg isPush := by
  rw [packreqNumber] at packed
  rw [partCount, head]
  by_cases short : msg.length < multiPart
  · rw [if_pos short] at packed
    obtain ⟨bytes, package, eq⟩ := of_map packed
    cases eq
    have small : (if isPush then 0 else k) < 2 ^ 32 := by split <;> omega
    rw [if_pos short, if_pos short, wire_small short]
    refine ⟨rfl, sound_of_package true package ?_ rfl⟩
    rw [unpack_number addr small, wire_push low]
  · rw [if_neg short] at packed
    obtain ⟨bytes, package, eq⟩ := of_map packed
    cases eq
    rw [if_neg short, if_neg short, wire_large short]
    exact ⟨rfl, sound_of_package true package
      (unpack_mnumber addr (by omega) (by omega) isPush) rfl⟩

theorem packreqString_head {name : Bytes} {multipak : Nat} (low : 1 ≤ k) (high : k ≤ 0x7fffffff)
    (length : msg.length < 2 ^ 31)
    (packed : packreqString name k msg isPush = .ok (request, multipak)) :
    multipak = partCount msg ∧ Sound ⟨true, wireSession k msg isPush, request⟩ ∧
      contents ⟨true, wireSession k msg isPush, request⟩ =
        head (.name name) (wireSession k msg isPush) msg isPush := by
  rw [packreqString] at packed
  split at packed
  · cases packed
  · rename_i fits
    have fits : name.length ≤ 255 := by omega
    rw [partCount, head]
    by_cases short : msg.length < multiPart
    · rw [if_pos short] at packed
      obtain ⟨bytes, package, eq⟩ := of_map packed
      cases eq
      have small : (if isPush then 0 else k) < 2 ^ 32 := by split <;> omega
      rw [if_pos short, if_pos short, wire_small short]
      refine ⟨rfl, sound_of_package true package ?_ rfl⟩
      rw [unpack_string fits small, wire_push low]
    · rw [if_neg short] at packed
      obtain ⟨bytes, package, eq⟩ := of_map packed
      cases eq
      rw [if_neg short, if_neg short, wire_large short]
      exact ⟨rfl, sound_of_package true package
        (unpack_mstring fits (by omega) (by omega) isPush) rfl⟩

/-- The request that a call of `packrequest` makes. -/
def requestOf (addr : Address) (k : Nat) (msg : Bytes) (isPush : Bool) : Request :=
  ⟨wireAddress addr, wireSession k msg isPush, msg, isPush⟩

/-- The packages of a request carry its pieces, and the next session is one. -/
theorem packrequest_pieces (low : 1 ≤ k) (high : k ≤ 0x7fffffff) (length : msg.length < 2 ^ 31)
    (packed : packrequest addr k msg isPush = .ok (request, next, padding)) :
    (1 ≤ next ∧ next ≤ 0x7fffffff) ∧ (padding = [] ↔ msg.length < multiPart) ∧
      (∀ p ∈ packets (wireSession k msg isPush) request padding, Sound p) ∧
      (packets (wireSession k msg isPush) request padding).map contents =
        (requestOf addr k msg isPush).pieces := by
  rw [packrequest, if_neg (by omega)] at packed
  obtain ⟨⟨request', multipak⟩, header, packed⟩ := of_bind packed
  dsimp only at packed
  have first : multipak = partCount msg ∧ Sound ⟨true, wireSession k msg isPush, request'⟩ ∧
      contents ⟨true, wireSession k msg isPush, request'⟩ =
        head (wireAddress addr) (wireSession k msg isPush) msg isPush := by
    cases addr with
    | id addr => exact packreqNumber_head low high length header
    | name name => exact packreqString_head low high length header
  obtain ⟨count, sound, carried⟩ := first
  -- neither depends on the priority
  replace sound := fun urgent => sound.of_urgent urgent
  replace carried : ∀ urgent, contents ⟨urgent, wireSession k msg isPush, request'⟩ =
      head (wireAddress addr) (wireSession k msg isPush) msg isPush := fun _ => carried
  rw [partCount] at count
  subst count
  rw [Request.pieces]
  change _ ∧ _ ∧ _ ∧ _ = if msg.length < multiPart then _ else _
  by_cases short : msg.length < multiPart
  · rw [if_pos short, if_neg (not_not_intro rfl)] at packed
    cases packed
    refine ⟨by split <;> omega, ?_⟩
    rw [if_pos short, packets, List.map_cons, carried, head, if_pos short]
    exact ⟨iff_of_true rfl short, List.forall_mem_singleton.mpr (sound _), rfl⟩
  · rw [if_neg short, if_pos (Nat.succ_ne_zero _)] at packed
    obtain ⟨padding', rest, eq⟩ := of_map packed
    cases eq
    refine ⟨by split <;> omega, ?_⟩
    obtain ⟨parts_sound, parts_carry⟩ := packreqMulti_parts (by omega) rest
    rw [if_neg short, packets, List.map_cons, carried, head, if_neg short]
    rw [wire_large short] at sound ⊢
    refine ⟨iff_of_false ?_ short, List.forall_mem_cons.mpr ⟨sound _, parts_sound⟩, ?_⟩
    · intro empty
      rw [empty] at parts_carry
      rw [parts] at parts_carry
      split at parts_carry <;> cases parts_carry
    · rw [parts_carry, requestOf, wire_large short]

/-- How many packages follow the first. -/
theorem padding_length (low : 1 ≤ k) (high : k ≤ 0x7fffffff) (length : msg.length < 2 ^ 31)
    (packed : packrequest addr k msg isPush = .ok (request, next, padding)) :
    padding.length = partCount msg := by
  have count := congrArg List.length (packrequest_pieces low high length packed).2.2.2
  rw [List.length_map, packets, List.length_cons, List.length_map, Request.pieces] at count
  rw [partCount]
  change _ = List.length (if msg.length < multiPart then _ else _) at count
  split at count
  · rename_i short
    rw [if_pos short]
    exact Nat.succ.inj count
  · rename_i long
    rw [List.length_cons, parts_length] at count
    rw [if_neg long]
    exact Nat.succ.inj count

/-- What a list of packages does to the entry of their session. -/
def collectAll (req : Option Req) : List Unpacked → Option Req × List Outcome
  | [] => (req, [])
  | u :: us =>
      let first := collect req u
      let rest := collectAll first.1 us
      (rest.1, first.2.toList ++ rest.2)

theorem collectAll_append (req : Option Req) (us us' : List Unpacked) :
    collectAll req (us ++ us') =
      ((collectAll (collectAll req us).1 us').1,
        (collectAll req us).2 ++ (collectAll (collectAll req us).1 us').2) := by
  induction us generalizing req with
  | nil => rfl
  | cons u us ih =>
      rw [List.cons_append, collectAll, ih, collectAll, List.append_assoc]

theorem concatStrings_eq (buff : Bytes) (strs : List Bytes) :
    concatStrings (buff.length + strs.flatten.length) buff (strs.map .string) =
      some (buff ++ strs.flatten) := by
  induction strs generalizing buff with
  | nil =>
      rw [List.map_nil, concatStrings, List.flatten_nil,
        if_neg (fun differ => differ rfl), List.append_nil]
      exact fun s items same => by cases same
  | cons s strs ih =>
      have fits : ¬ s.length + buff.length > buff.length + (s :: strs).flatten.length := by
        rw [List.flatten_cons, List.length_append]
        omega
      have next := ih (buff ++ s)
      rw [List.map_cons, concatStrings, if_neg fits, List.flatten_cons, List.length_append,
        ← Nat.add_assoc, ← List.length_append, next, List.append_assoc]

/-- Strings of the right length together are put together. -/
theorem concat_eq (strs : List Bytes) :
    concat (.size strs.flatten.length :: strs.map .string) = some strs.flatten := by
  have copied := concatStrings_eq [] strs
  rw [List.length_nil, Nat.zero_add, List.nil_append] at copied
  exact copied

/-- The parts of a message, collected behind what has come before. -/
theorem collectAll_parts (addr : Option Address) (isPush : Bool) (strs : List Bytes)
    (count : n = (msg.length - 1) / multiPart) :
    collectAll (some ⟨addr, isPush, .size (strs.flatten ++ msg).length :: strs.map .string⟩)
      (parts k (n + 1) msg) = (none, [.request addr k (strs.flatten ++ msg) isPush]) := by
  induction n generalizing strs msg with
  | zero =>
      have short : ¬ msg.length > multiPart := by
        rw [multiPart] at count ⊢
        omega
      have whole := concat_eq (strs ++ [msg])
      rw [List.flatten_append, List.flatten_singleton, List.map_append, List.map_singleton] at whole
      rw [parts, if_neg short, collectAll, collect, complete]
      dsimp only
      rw [List.cons_append, whole]
      rfl
  | succ n ih =>
      have long : msg.length > multiPart := by
        rw [multiPart] at count ⊢
        omega
      have rest : n = ((msg.drop multiPart).length - 1) / multiPart := by
        rw [List.length_drop]
        rw [multiPart] at count long ⊢
        omega
      have next := ih (strs ++ [msg.take multiPart]) rest
      rw [List.flatten_append, List.flatten_singleton, List.append_assoc, List.take_append_drop,
        List.map_append, List.map_singleton] at next
      rw [parts, if_pos long, collectAll, collect]
      dsimp only [Option.getD_some]
      rw [List.cons_append, next]
      rfl

/-- The packages of a request give the request, and leave nothing. -/
theorem collectAll_pieces (r : Request) : collectAll none r.pieces = (none, [r.outcome]) := by
  rw [Request.pieces]
  split
  · rfl
  · rename_i long
    rw [collectAll, collect]
    dsimp only [Option.getD_none, List.nil_append]
    have collected : collectAll (some ⟨some r.addr, r.isPush,
        .size ([].flatten ++ r.msg).length :: [].map .string⟩)
          (parts r.session ((r.msg.length - 1) / multiPart + 1) r.msg) = _ :=
      collectAll_parts (some r.addr) r.isPush [] rfl
    rw [List.flatten_nil, List.nil_append, List.map_nil] at collected
    rw [collected]
    rfl

theorem collectAll_requests (rs : List Request) :
    collectAll none (rs.flatMap Request.pieces) = (none, rs.map Request.outcome) := by
  induction rs with
  | nil => rfl
  | cons r rs ih =>
      rw [List.flatMap_cons, collectAll_append, collectAll_pieces]
      dsimp only
      rw [ih]
      rfl

/-- Of some packages of requests come the first requests. -/
theorem collectAll_prefix {us : List Unpacked} {rs : List Request}
    (start : us <+: rs.flatMap Request.pieces) :
    (collectAll none us).2 <+: rs.map Request.outcome := by
  obtain ⟨rest, whole⟩ := start
  have all := collectAll_requests rs
  rw [← whole, collectAll_append] at all
  exact ⟨_, congrArg Prod.snd all⟩

def Outcome.session : Outcome → Option Nat
  | .request _ session _ _ | .invalid session => some session
  | .failed _ => none

/-- The answers for a session. -/
def answers (k : Nat) (outcomes : List Outcome) : List Outcome :=
  outcomes.filter fun o => o.session = some k

theorem collect_session {req : Option Req} {u : Unpacked} {o : Outcome}
    (own : session u = some k) (answered : (collect req u).2 = some o) : o.session = some k := by
  have completed : ∀ addr msg isPush, (complete req addr k msg isPush).session = some k := by
    intro addr msg isPush
    unfold complete
    split
    · split <;> rfl
    · rfl
  cases u with
  | multi addr session size isPush => cases answered
  | part session msg padding =>
      cases padding with
      | true => cases answered
      | false =>
          cases own
          cases answered
          exact completed ..
  | request addr session msg isPush =>
      cases own
      cases answered
      exact completed ..
  | trace tag => cases own

/-- The agent treats each session for itself. -/
theorem receiveAll_answers (large : LargeRequest) (sound : ∀ p ∈ ps, Sound p) (k : Nat) :
    answers k (receiveAll large (ps.map fun p => p.bytes.drop 2)).2 =
      (collectAll (large k) ((ofKey Packet.session k ps).map contents)).2 := by
  induction ps generalizing large with
  | nil => rfl
  | cons p ps ih =>
      obtain ⟨first, rest⟩ := List.forall_mem_cons.mp sound
      have received : receive large (p.bytes.drop 2) =
          (Function.update large p.session (collect (large p.session) (contents p)).1,
            (collect (large p.session) (contents p)).2) := by
        rw [receive, first.unpacks]
        dsimp only
        rw [dispatchRequest, first.session_eq]
      rw [List.map_cons, receiveAll, received]
      dsimp only
      rw [answers, List.filter_append]
      change answers k _ ++ answers k _ = _
      rw [ih _ rest]
      by_cases own : p.session = k
      · have all : answers k (collect (large k) (contents p)).2.toList =
            (collect (large k) (contents p)).2.toList := by
          apply List.filter_eq_self.mpr
          intro o mem
          exact decide_eq_true (collect_session (own ▸ first.session_eq) (Option.mem_toList.mp mem))
        have split : ofKey Packet.session k (p :: ps) = p :: ofKey Packet.session k ps := by
          rw [ofKey, List.filter_cons_of_pos (by simpa using own)]
          rfl
        rw [own, all, Function.update_self, split, List.map_cons, collectAll]
      · have none_own : answers k (collect (large p.session) (contents p)).2.toList = [] := by
          apply List.filter_eq_nil_iff.mpr
          intro o mem same
          have other := collect_session first.session_eq (Option.mem_toList.mp mem)
          rw [other] at same
          exact own (Option.some.inj (of_decide_eq_true same))
        have split : ofKey Packet.session k (p :: ps) = ofKey Packet.session k ps := by
          rw [ofKey, List.filter_cons_of_neg (by simpa using own)]
          rfl
        rw [none_own, List.nil_append, Function.update_of_ne (Ne.symm own), split]

/-- What happens to the queue in a run. -/
def moves (trace : List (Event × Output)) : List (Overtaking.Event Packet × Option Packet) :=
  trace.filterMap fun
    | (_, .sent packets) => some (.send packets, none)
    | (.take n, .packet p) => some (.take n, some p)
    | _ => none

/-- The requests that a run sends. -/
def requests (trace : List (Event × Output)) : List Request :=
  trace.filterMap fun
    | (.req addr msg, .sent (p :: _)) => some ⟨wireAddress addr, p.session, msg, false⟩
    | (.push addr msg, .sent (p :: _)) => some ⟨wireAddress addr, p.session, msg, true⟩
    | _ => none

/-- The bytes that a run writes to the socket. -/
def written (trace : List (Event × Output)) : Bytes := (taken (moves trace)).flatMap Packet.bytes

structure Inv (trace : List (Event × Output)) (s : State) : Prop where
  session : 1 ≤ s.session ∧ s.session ≤ 0x7fffffff
  reach : (Overtaking.machine Packet.session Packet.urgent).Reach (moves trace) s.queue
  sound : ∀ p ∈ sent (moves trace), Sound p
  carried : (sent (moves trace)).map contents = (requests trace).flatMap Request.pieces

variable {trace : List (Event × Output)} {s s' : State} {e : Event} {o : Output}

/-- A request is sent. -/
theorem Inv.send (inv : Inv trace s) {sent' : List Packet} {r : Request}
    (next_ok : 1 ≤ next ∧ next ≤ 0x7fffffff) (sound : ∀ p ∈ sent', Sound p)
    (carried : sent'.map contents = r.pieces)
    (requested : requests [(e, .sent sent')] = [r])
    (took : s.send next sent' = some (s', o)) : Inv (trace ++ [(e, o)]) s' := by
  rw [State.send] at took
  cases moved : Overtaking.step Packet.session Packet.urgent s.queue (.send sent') with
  | none =>
      rw [moved] at took
      cases took
  | some x =>
      obtain ⟨queue, p⟩ := x
      rw [moved] at took
      cases took
      have nothing : p = none := by
        rw [Overtaking.step] at moved
        split at moved <;> cases moved
        rfl
      subst nothing
      have moves_eq : moves (trace ++ [(e, .sent sent')]) = moves trace ++ [(.send sent', none)] :=
        List.filterMap_append ..
      have requests_eq : requests (trace ++ [(e, .sent sent')]) = requests trace ++ [r] := by
        rw [← requested]
        exact List.filterMap_append ..
      have sent_eq : sent (moves trace ++ [(.send sent', none)]) = sent (moves trace) ++ sent' := by
        rw [sent, List.flatMap_append, List.flatMap_singleton]
        rfl
      refine ⟨next_ok, ?_, ?_, ?_⟩
      · rw [moves_eq]
        exact inv.reach.next moved
      · rw [moves_eq, sent_eq]
        exact List.forall_mem_append.mpr ⟨inv.sound, sound⟩
      · rw [moves_eq, sent_eq, requests_eq, List.map_append, List.flatMap_append, inv.carried,
          carried, List.flatMap_singleton]

/-- Nothing is sent or taken. -/
theorem Inv.failed (inv : Inv trace s) (e : Event) (reason : Failure) :
    Inv (trace ++ [(e, .failed reason)]) s := by
  have moves_eq : moves (trace ++ [(e, .failed reason)]) = moves trace := by
    rw [moves, List.filterMap_append]
    cases e <;> exact List.append_nil _
  have requests_eq : requests (trace ++ [(e, .failed reason)]) = requests trace := by
    rw [requests, List.filterMap_append]
    cases e <;> exact List.append_nil _
  refine ⟨inv.session, ?_, ?_, ?_⟩
  · rw [moves_eq]
    exact inv.reach
  · rw [moves_eq]
    exact inv.sound
  · rw [moves_eq, requests_eq]
    exact inv.carried

theorem Inv.step (inv : Inv trace s) (took : step s e = some (s', o)) :
    Inv (trace ++ [(e, o)]) s' := by
  obtain ⟨low, high⟩ := inv.session
  cases e with
  | req addr msg =>
      rw [Clusteragent.step] at took
      split at took
      · rename_i length
        cases packed : packrequest addr s.session msg false with
        | error reason =>
            rw [packed] at took
            cases took
            exact inv.failed _ reason
        | ok result =>
            obtain ⟨request, next, padding⟩ := result
            rw [packed] at took
            obtain ⟨next_ok, -, sound, carried⟩ := packrequest_pieces low high length packed
            have own : wireSession s.session msg false = s.session :=
              if_neg fun both => by cases both.1
            rw [own] at sound carried
            exact inv.send next_ok sound carried (by rw [requestOf, own]; rfl) took
      · cases took
  | push addr msg =>
      rw [Clusteragent.step] at took
      split at took
      · rename_i length
        cases packed : packrequest addr s.session msg true with
        | error reason =>
            rw [packed] at took
            cases took
            exact inv.failed _ reason
        | ok result =>
            obtain ⟨request, next, padding⟩ := result
            rw [packed] at took
            obtain ⟨next_ok, whole, sound, carried⟩ := packrequest_pieces low high length packed
            cases padding with
            | nil =>
                have own : wireSession s.session msg true = 0 := if_pos ⟨rfl, whole.mp rfl⟩
                rw [own] at sound carried
                exact inv.send ⟨low, high⟩ sound carried (by rw [requestOf, own]; rfl) took
            | cons first rest =>
                have own : wireSession s.session msg true = s.session :=
                  wire_large fun short => by cases whole.mpr short
                rw [own] at sound carried
                exact inv.send next_ok sound carried (by rw [requestOf, own]; rfl) took
      · cases took
  | take n =>
      rw [Clusteragent.step] at took
      cases moved : Overtaking.step Packet.session Packet.urgent s.queue (.take n) with
      | none =>
          rw [moved] at took
          cases took
      | some x =>
          rw [moved] at took
          obtain ⟨queue, out⟩ := x
          cases out with
          | none => cases took
          | some p =>
              cases took
              have moves_eq : moves (trace ++ [(.take n, .packet p)]) =
                  moves trace ++ [(.take n, some p)] := List.filterMap_append ..
              have requests_eq : requests (trace ++ [(.take n, .packet p)]) = requests trace := by
                rw [requests, List.filterMap_append]
                exact List.append_nil _
              have sent_eq : sent (moves trace ++ [(.take n, some p)]) = sent (moves trace) := by
                rw [sent, List.flatMap_append, List.flatMap_singleton]
                exact List.append_nil _
              refine ⟨inv.session, ?_, ?_, ?_⟩
              · rw [moves_eq]
                exact inv.reach.next moved
              · rw [moves_eq, sent_eq]
                exact inv.sound
              · rw [moves_eq, sent_eq, requests_eq]
                exact inv.carried

theorem Inv.of_reach (reach : machine.Reach trace s) : Inv trace s := by
  refine reach.invariant Inv ?_ ?_
  · exact ⟨⟨Nat.le_refl 1, (by decide : 1 ≤ 0x7fffffff)⟩, .init,
      fun p mem => absurd mem List.not_mem_nil, rfl⟩
  · intro trace s e s' o inv took
    exact inv.step took

theorem ofKey_contents (sound : ∀ p ∈ l, Sound p) (k : Nat) :
    (ofKey Packet.session k l).map contents =
      (l.map contents).filter fun u => session u = some k := by
  rw [List.filter_map]
  congr 1
  refine List.filter_congr fun p mem => ?_
  change decide (p.session = k) = decide (session (contents p) = some k)
  rw [(sound p mem).session_eq]
  exact decide_eq_decide.mpr Option.some_inj.symm

theorem parts_session {session' n : Nat} {u : Unpacked} (mem : u ∈ parts session' n msg) :
    session u = some session' := by
  induction n generalizing msg with
  | zero => cases mem
  | succ n ih =>
      rw [parts] at mem
      split at mem
      · cases List.mem_cons.mp mem with
        | inl first => rw [first]; rfl
        | inr rest => exact ih rest
      · cases List.mem_cons.mp mem with
        | inl first => rw [first]; rfl
        | inr rest => exact ih rest

theorem pieces_session {u : Unpacked} (mem : u ∈ r.pieces) : session u = some r.session := by
  rw [Request.pieces] at mem
  split at mem
  · rw [List.mem_singleton.mp mem]
    rfl
  · cases List.mem_cons.mp mem with
    | inl first => rw [first]; rfl
    | inr rest => exact parts_session rest

theorem pieces_filter (rs : List Request) (k : Nat) :
    (rs.flatMap Request.pieces).filter (fun u => session u = some k) =
      (rs.filter fun r => r.session = k).flatMap Request.pieces := by
  induction rs with
  | nil => rfl
  | cons r rs ih =>
      rw [List.flatMap_cons, List.filter_append, ih]
      by_cases own : r.session = k
      · rw [List.filter_cons_of_pos (by simpa using own), List.flatMap_cons]
        congr 1
        refine List.filter_eq_self.mpr fun u mem => ?_
        exact decide_eq_true ((pieces_session mem).trans (congrArg some own))
      · rw [List.filter_cons_of_neg (by simpa using own)]
        have nothing : r.pieces.filter (fun u => session u = some k) = [] := by
          refine List.filter_eq_nil_iff.mpr fun u mem same => own ?_
          exact Option.some.inj ((pieces_session mem).symm.trans (of_decide_eq_true same))
        rw [nothing, List.nil_append]

/-- What is written are frames. -/
theorem split_packets (frames : ∀ p ∈ ps, pack (p.bytes.drop 2) = some p.bytes) :
    framing.split (ps.flatMap Packet.bytes) = (ps.map fun p => p.bytes.drop 2, []) := by
  induction ps with
  | nil => exact Framing.split_nil
  | cons p ps ih =>
      obtain ⟨first, rest⟩ := List.forall_mem_cons.mp frames
      rw [List.flatMap_cons, pack_split first, ih rest]
      rfl

/-- Over every run of a sender: of whatever part of its stream has come, the agent answers for
each session the first of the requests sent with it, whole and in order; when nothing waits and
all has come, it has answered all. -/
theorem requests_arrive (reach : machine.Reach trace s) {stream : Bytes}
    (part : stream <+: written trace) (k : Nat) :
    answers k (receiveAll (fun _ => none) (framing.split stream).1).2 <+:
        ((requests trace).filter fun r => r.session = k).map Request.outcome ∧
      (stream = written trace → s.queue = [] →
        answers k (receiveAll (fun _ => none) (framing.split stream).1).2 =
          ((requests trace).filter fun r => r.session = k).map Request.outcome) := by
  have inv := Inv.of_reach reach
  obtain ⟨-, order⟩ := taken_in_order inv.reach
  have taken_sound : ∀ p ∈ taken (moves trace), Sound p := by
    intro p mem
    have own : p ∈ ofKey Packet.session p.session (taken (moves trace)) :=
      List.mem_filter.mpr ⟨mem, decide_eq_true rfl⟩
    have also : p ∈ ofKey Packet.session p.session (sent (moves trace)) :=
      order p.session ▸ List.mem_append_left _ own
    exact inv.sound p (List.mem_filter.mp also).1
  have pieces : (ofKey Packet.session k (sent (moves trace))).map contents =
      ((requests trace).filter fun r => r.session = k).flatMap Request.pieces := by
    rw [ofKey_contents inv.sound, inv.carried, pieces_filter]
  have split : framing.split (written trace) =
      ((taken (moves trace)).map fun p => p.bytes.drop 2, []) :=
    split_packets fun p mem => (taken_sound p mem).frame
  have bodies := Framing.split_prefix (F := framing) part
  rw [split] at bodies
  obtain ⟨n, first⟩ : ∃ n, (framing.split stream).1 =
      ((taken (moves trace)).take n).map fun p => p.bytes.drop 2 :=
    ⟨(framing.split stream).1.length, by
      rw [List.map_take]
      exact List.prefix_iff_eq_take.mp bodies⟩
  have first_sound : ∀ p ∈ (taken (moves trace)).take n, Sound p :=
    fun p mem => taken_sound p (List.mem_of_mem_take mem)
  constructor
  · rw [first, receiveAll_answers _ first_sound]
    apply collectAll_prefix
    rw [← pieces]
    exact (((List.take_prefix n _).filter _).trans (taken_isPrefix inv.reach k)).map contents
  · intro all empty
    have whole : (framing.split stream).1 = (taken (moves trace)).map fun p => p.bytes.drop 2 := by
      rw [all, split]
    have arrived : ofKey Packet.session k (taken (moves trace)) =
        ofKey Packet.session k (sent (moves trace)) := by
      have both := order k
      rw [empty] at both
      exact (List.append_nil _).symm.trans both
    rw [whole, receiveAll_answers _ taken_sound, arrived, pieces, collectAll_requests]

/-- Packages of one priority are sent when none of their session waits. -/
theorem State.send_ok {b : Bool} (calm : Calm Packet.session Packet.urgent s.queue)
    (same : ∀ p ∈ ps, p.urgent = b) (other : ∀ p ∈ s.queue, ∀ q ∈ ps, p.session ≠ q.session) :
    s.send next ps = some (⟨next, s.queue ++ ps⟩, .sent ps) := by
  rw [State.send, step_send calm (calm_of_urgent same) other]

theorem step_req (length : msg.length < 2 ^ 31)
    (packed : packrequest addr s.session msg false = .ok (request, next, padding)) :
    step s (.req addr msg) = s.send next (packets s.session request padding) := by
  rw [step, if_pos length, packed]

theorem step_push (length : msg.length < 2 ^ 31)
    (packed : packrequest addr s.session msg true = .ok (request, next, [])) :
    step s (.push addr msg) = s.send s.session (packets 0 request []) := by
  rw [step, if_pos length, packed]

/-- A push comes between the parts of a request. -/
theorem requests_arrive_parts : ∃ trace s, machine.Reach trace s ∧
    (taken (moves trace)).map Packet.session = [1, 0, 1, 1] ∧
      answers 1 (receiveAll (fun _ => none) (framing.split (written trace)).1).2 =
        [.request (some (.name (ascii "@db"))) 1 (List.replicate 0x9000 7) false] := by
  have length : (List.replicate 0x9000 (7 : UInt8)).length = 0x9000 := List.length_replicate ..
  generalize List.replicate 0x9000 (7 : UInt8) = msg at length
  have small : msg.length < 2 ^ 31 := length ▸ (by decide : 0x9000 < 2 ^ 31)
  obtain ⟨request, next, padding, packed⟩ :=
    packrequest_ok (show (Address.name (ascii "@db")).Fits from ⟨by decide, by decide⟩)
      (Nat.le_refl 1) msg false
  have two := padding_length (Nat.le_refl 1) (by decide) small packed
  rw [partCount, length] at two
  obtain ⟨a, b, eq⟩ := List.length_eq_two.mp two
  subst eq
  obtain ⟨low, high⟩ := (packrequest_pieces (Nat.le_refl 1) (by decide) small packed).1
  obtain ⟨request', next', padding', packed'⟩ :=
    packrequest_ok (show (Address.id 8).Fits from trivial) low [7] true
  have none_follow := (packrequest_pieces low high (by decide) packed').2.1.mpr (by decide)
  subst none_follow
  have sends : step ⟨1, []⟩ (.req (.name (ascii "@db")) msg) =
      some (⟨next, packets 1 request [a, b]⟩, .sent (packets 1 request [a, b])) :=
    (step_req small packed).trans
      (State.send_ok (b := false) .nil (by simp [packets]) fun p mem => absurd mem (by simp))
  have pushes : step ⟨next, [⟨false, 1, a⟩, ⟨false, 1, b⟩]⟩ (.push (.id 8) [7]) =
      some (⟨next, [⟨false, 1, a⟩, ⟨false, 1, b⟩, ⟨true, 0, request'⟩]⟩,
        .sent [⟨true, 0, request'⟩]) :=
    (step_push (by decide) packed').trans (State.send_ok (b := true)
      (calm_of_urgent (b := false) (by simp)) (by simp [packets]) (by simp [packets]))
  have start : machine.Reach [] machine.init := .init
  have told := start.next (e := Event.req (.name (ascii "@db")) msg) sends
  have begun : machine.Reach _ ⟨next, [⟨false, 1, a⟩, ⟨false, 1, b⟩]⟩ :=
    told.next (e := Event.take 0) (o := .packet ⟨false, 1, request⟩) rfl
  have behind := begun.next (e := Event.push (.id 8) [7]) pushes
  have overtaken : machine.Reach _ ⟨next, [⟨false, 1, a⟩, ⟨false, 1, b⟩]⟩ :=
    behind.next (e := Event.take 2) (o := .packet ⟨true, 0, request'⟩) rfl
  have left : machine.Reach _ ⟨next, [⟨false, 1, b⟩]⟩ :=
    overtaken.next (e := Event.take 0) (o := .packet ⟨false, 1, a⟩) rfl
  have ended : machine.Reach _ ⟨next, []⟩ :=
    left.next (e := Event.take 0) (o := .packet ⟨false, 1, b⟩) rfl
  exact ⟨_, _, ended, rfl, (requests_arrive ended (List.prefix_refl _) 1).2 rfl rfl⟩

end Qiuqiu.Net.Clusteragent
