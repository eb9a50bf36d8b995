import Mathlib.Data.List.Nodup
import Qiuqiu.Net.Clusterrequests

/-!
Responses from node to node: service/clusteragent.lua writes them, and the channel of
service/clustersender.lua (lualib/skynet/socketchannel.lua) gives each to the coroutine that
waits for its session. All packages of a response in parts have low priority: short responses
overtake them, and they come between those of other sessions.
-/
namespace Qiuqiu.Net.Clusterresponses
open Clusterpack Netpack Overtaking
open Clusteragent (Packet)

/-- A call of `packresponse`; the length of a message is an `int`. -/
structure Reply where
  session : Nat
  ok : Bool
  msg : Bytes
  session_lt : session < 2 ^ 32
  length_lt : msg.length < 2 ^ 31

/-- `packresponse` returns a table. -/
def Reply.Large (r : Reply) : Prop := r.ok = true ∧ r.msg.length > multiPart

instance (r : Reply) : Decidable r.Large := inferInstanceAs (Decidable (_ ∧ _))

/-- The end of `dispatch_request`: a table is written with low priority. -/
def Reply.packets (r : Reply) : List Packet :=
  match packresponse r.session r.ok r.msg with
  | .ok packages => packages.map fun bytes => ⟨!decide r.Large, r.session, bytes⟩
  | .error _ => []

/-- The agent: the sessions it has answered and what has not reached the socket. -/
structure State where
  answered : List Nat
  queue : List Packet

inductive Event where
  | respond (r : Reply)
  | take (n : Nat)

/-- A session is answered once. -/
def step (s : State) : Event → Option (State × Option Packet)
  | .respond r =>
      if r.session ∈ s.answered then none
      else
        (Overtaking.step Packet.session Packet.urgent s.queue (.send r.packets)).map fun x =>
          (⟨s.answered ++ [r.session], x.1⟩, x.2)
  | .take n =>
      (Overtaking.step Packet.session Packet.urgent s.queue (.take n)).map fun x =>
        (⟨s.answered, x.1⟩, x.2)

def machine : Machine State Event (Option Packet) where
  init := ⟨[], []⟩
  step := step

/-- What a coroutine is woken with: `__result` and `__result_data`. -/
inductive Woken where
  | error (msg : Bytes)
  | data (msg : Bytes)
  | table (items : List Item)
  | socketError
  deriving Repr, DecidableEq

/-- An entry of `__thread`: nobody waits, or a coroutine with its `__result_data`. -/
abbrev Waiting := Option (Option (List Item))

/-- What a round of `dispatch_by_session` does to the entry of its session. -/
def round : Waiting → Response → Waiting × Option Woken
  | none, _ => (none, none)
  | some data, .begin size => (some (some (data.getD [] ++ [.size size])), none)
  | some data, .part msg => (some (some (data.getD [] ++ [.string msg])), none)
  | some (some items), .ok msg => (none, some (.table (items ++ [.string msg])))
  | some none, .ok msg => (none, some (.data msg))
  | some _, .error msg => (none, some (.error msg))

structure Channel where
  thread : Nat → Waiting
  closed : Bool

/-- Who is woken, by session. -/
abbrev Wakes := Nat → Option Woken

/-- `close_channel_socket` and `wakeup_all`, without an `errmsg`: all that wait are woken. -/
def Channel.wakeupAll (c : Channel) : Channel × Wakes :=
  (⟨fun _ => none, true⟩, fun k => (c.thread k).map fun _ => .socketError)

/-- A round of `dispatch_by_session`. -/
def Channel.dispatch (c : Channel) (payload : Bytes) : Channel × Wakes :=
  if c.closed then (c, fun _ => none)
  else
    match unpackresponse payload with
    | some (k, response) =>
        ({ c with thread := Function.update c.thread k (round (c.thread k) response).1 },
          Function.update (fun _ => none) k (round (c.thread k) response).2)
    -- `unpackresponse` returns no session
    | none => c.wakeupAll

/-- `dispatch_by_session`, package by package. -/
def Channel.dispatchAll (c : Channel) : List Bytes → List Wakes
  | [] => []
  | payload :: payloads => (c.dispatch payload).2 :: (c.dispatch payload).1.dispatchAll payloads

/-- What the caller gets: the message, nothing when the parts do not fit the size, or an error
that is logged with the message of the agent or `[Error: socket]`. -/
inductive Answer where
  | ret (msg : Bytes)
  | nothing
  | failed (msg : Bytes)
  | socketError
  deriving Repr, DecidableEq

/-- `wait_for_response` and `command.req`. -/
def Woken.answer : Woken → Answer
  | .error msg => .failed msg
  | .data msg => .ret msg
  | .table items =>
      match concat items with
      | some msg => .ret msg
      | none => .nothing
  | .socketError => .socketError

/-- What the caller of a session gets of a channel. -/
def answers (k : Nat) (woken : List Wakes) : List Answer :=
  (woken.filterMap fun wakes => wakes k).map Woken.answer

/-- What the reply is for its caller; an error is cut. -/
def Reply.answer (r : Reply) : Answer :=
  if r.ok then .ret r.msg else .failed (r.msg.take multiPart)

/-- The parts of a message. -/
def parts : Nat → Bytes → List Response
  | 0, _ => []
  | part + 1, msg =>
      if msg.length > multiPart then
        .part (msg.take multiPart) :: parts part (msg.drop multiPart)
      else .ok msg :: parts part []

theorem parts_length (n : Nat) (msg : Bytes) : (parts n msg).length = n := by
  induction n generalizing msg with
  | zero => rfl
  | succ n ih =>
      rw [parts]
      split
      · exact congrArg (· + 1) (ih _)
      · exact congrArg (· + 1) (ih _)

/-- The packages of a reply, unpacked. -/
def Reply.pieces (r : Reply) : List Response :=
  if r.Large then .begin r.msg.length :: parts ((r.msg.length - 1) / multiPart + 1) r.msg
  else [if r.ok then .ok r.msg else .error (r.msg.take multiPart)]

/-- What a package carries. -/
def contents (p : Packet) : Response :=
  match unpackresponse (p.bytes.drop 2) with
  | some (_, response) => response
  | none => .error []

/-- A package is a frame, and carries something for its session. -/
structure Sound (p : Packet) : Prop where
  frame : pack (p.bytes.drop 2) = some p.bytes
  unpacks : unpackresponse (p.bytes.drop 2) = some (p.session, contents p)

variable {k n : Nat} {msg payload bytes : Bytes} {response : Response}
  {ps : List Packet} {r : Reply} {rs : List Reply}

theorem unpackresponse_eq (small : k < 2 ^ 32) (type : UInt8) (tail : Bytes) :
    unpackresponse (fillUint32 k ++ type :: tail) =
      if type = 0 then some (k, .error tail)
      else if type = 1 ∨ type = 4 then some (k, .ok tail)
      else if type = 2 then
        if tail.length + 5 ≠ 9 then none else some (k, .begin (unpackUint32 tail))
      else if type = 3 then some (k, .part tail)
      else none := by
  have length : (fillUint32 k ++ type :: tail).length = tail.length + 5 := by
    rw [List.length_append, fillUint32_length, List.length_cons]
    omega
  rw [unpackresponse, length, if_neg (by omega), unpackUint32_fill small]
  rfl

theorem unpackresponse_begin (small : k < 2 ^ 32) (small' : n < 2 ^ 32) :
    unpackresponse (fillUint32 k ++ 2 :: fillUint32 n) = some (k, .begin n) := by
  have size := unpackUint32_fill small' []
  rw [List.append_nil] at size
  rw [unpackresponse_eq small, size]
  rfl

theorem sound_of_package (urgent : Bool) (packed : package payload = .ok bytes)
    (unpacks : unpackresponse payload = some (k, response)) :
    Sound ⟨urgent, k, bytes⟩ ∧ contents ⟨urgent, k, bytes⟩ = response := by
  have frame := pack_of_package packed
  have behind := drop_of_package packed
  have carried : contents ⟨urgent, k, bytes⟩ = response := by
    rw [contents]
    dsimp only
    rw [behind, unpacks]
  refine ⟨⟨?_, ?_⟩, carried⟩
  · dsimp only
    rw [behind, frame]
  · rw [carried]
    dsimp only
    rw [behind, unpacks]

/-- A package of at most a part is packed. -/
theorem package_of_short (k : Nat) (type : UInt8) (short : msg.length ≤ multiPart) :
    ∃ bytes, package (fillUint32 k ++ type :: msg) = .ok bytes := by
  refine ⟨_, package_ok ?_⟩
  rw [List.length_append, fillUint32_length, List.length_cons]
  rw [multiPart] at short
  omega

/-- The parts that are packed are the parts. -/
theorem packresponseParts_parts (urgent : Bool) (small : k < 2 ^ 32) (n : Nat) (msg : Bytes) :
    ∃ packages, packresponseParts k n msg = .ok packages ∧
      (∀ p ∈ packages.map (Packet.mk urgent k), Sound p) ∧
      (packages.map (Packet.mk urgent k)).map contents = parts n msg := by
  induction n generalizing msg with
  | zero => exact ⟨[], rfl, fun p mem => absurd mem List.not_mem_nil, rfl⟩
  | succ n ih =>
      rw [parts, packresponseParts]
      by_cases long : msg.length > multiPart
      · obtain ⟨first, packed⟩ := package_of_short k 3 (List.length_take_le multiPart msg)
        obtain ⟨rest, packed', sound, carried⟩ := ih (msg.drop multiPart)
        obtain ⟨first_sound, first_carries⟩ := sound_of_package urgent packed
          (unpackresponse_eq small 3 _)
        refine ⟨first :: rest, ?_, List.forall_mem_cons.mpr ⟨first_sound, sound⟩, ?_⟩
        · simp only [if_pos long, packed, packed']
          rfl
        · rw [if_pos long, List.map_cons, List.map_cons, first_carries, carried]
      · obtain ⟨first, packed⟩ := package_of_short k 4 (Nat.not_lt.mp long)
        obtain ⟨rest, packed', sound, carried⟩ := ih []
        obtain ⟨first_sound, first_carries⟩ := sound_of_package urgent packed
          (unpackresponse_eq small 4 _)
        refine ⟨first :: rest, ?_, List.forall_mem_cons.mpr ⟨first_sound, sound⟩, ?_⟩
        · simp only [if_neg long, List.take_length, List.drop_length, packed, packed']
          rfl
        · rw [if_neg long, List.map_cons, List.map_cons, first_carries, carried]

/-- The packages of a reply carry its pieces, for its session and with one priority. -/
theorem Reply.packets_pieces (r : Reply) : (∀ p ∈ r.packets, Sound p) ∧
    (∀ p ∈ r.packets, p.session = r.session ∧ p.urgent = !decide r.Large) ∧
      r.packets.map contents = r.pieces := by
  obtain ⟨packages, packed, sound, carried⟩ : ∃ packages,
      packresponse r.session r.ok r.msg = .ok packages ∧
        (∀ p ∈ packages.map (Packet.mk (!decide r.Large) r.session), Sound p) ∧
        (packages.map (Packet.mk (!decide r.Large) r.session)).map contents = r.pieces := by
    rw [packresponse, Reply.pieces]
    by_cases large : r.ok = true ∧ r.msg.length > multiPart
    · have four : (fillUint32 r.msg.length).length ≤ multiPart := (by decide : 4 ≤ multiPart)
      obtain ⟨first, packed⟩ := package_of_short r.session 2 four
      obtain ⟨rest, packed', sound, carried⟩ := packresponseParts_parts (!decide r.Large)
        r.session_lt ((r.msg.length - 1) / multiPart + 1) r.msg
      obtain ⟨first_sound, first_carries⟩ := sound_of_package (!decide r.Large) packed
        (unpackresponse_begin r.session_lt (Nat.lt_trans r.length_lt (by decide)))
      refine ⟨first :: rest, ?_, List.forall_mem_cons.mpr ⟨first_sound, sound⟩, ?_⟩
      · rw [if_pos large, packed, packed']
        rfl
      · rw [if_pos (show r.Large from large), List.map_cons, List.map_cons, first_carries, carried]
    · rw [if_neg large, if_neg (show ¬ r.Large from large)]
      have cut : (if r.msg.length > multiPart then r.msg.take multiPart else r.msg) =
          r.msg.take multiPart := by
        split
        · rfl
        · rename_i short
          exact (List.take_of_length_le (Nat.not_lt.mp short)).symm
      obtain ⟨bytes, packed⟩ := package_of_short r.session
        (if r.ok then 1 else 0) (List.length_take_le multiPart r.msg)
      have unpacks : unpackresponse (fillUint32 r.session ++
          (if r.ok then 1 else 0) :: r.msg.take multiPart) =
            some (r.session, if r.ok then .ok r.msg else .error (r.msg.take multiPart)) := by
        rw [unpackresponse_eq r.session_lt]
        cases ok : r.ok with
        | true =>
            have short : r.msg.length ≤ multiPart := Nat.not_lt.mp fun long => large ⟨ok, long⟩
            rw [List.take_of_length_le short]
            rfl
        | false => rfl
      obtain ⟨sound, carries⟩ := sound_of_package (!decide r.Large) packed unpacks
      refine ⟨[bytes], ?_, List.forall_mem_singleton.mpr sound, congrArg ([·]) carries⟩
      dsimp only
      rw [cut, packed]
      rfl
  have whole : r.packets = packages.map (Packet.mk (!decide r.Large) r.session) := by
    rw [Reply.packets, packed]
  rw [whole]
  refine ⟨sound, fun p mem => ?_, carried⟩
  obtain ⟨bytes, -, eq⟩ := List.mem_map.mp mem
  rw [← eq]
  exact ⟨rfl, rfl⟩

/-- Who is woken by the packages of a session. -/
def collectAll (w : Waiting) : List Response → List Woken
  | [] => []
  | x :: xs => (round w x).2.toList ++ collectAll (round w x).1 xs

theorem collectAll_append (w : Waiting) (xs ys : List Response) :
    ∃ w', collectAll w (xs ++ ys) = collectAll w xs ++ collectAll w' ys := by
  induction xs generalizing w with
  | nil => exact ⟨w, rfl⟩
  | cons x xs ih =>
      obtain ⟨w', rest⟩ := ih (round w x).1
      refine ⟨w', ?_⟩
      rw [List.cons_append, collectAll, rest, collectAll, List.append_assoc]

/-- The parts of a message, behind what has come before. -/
theorem collectAll_parts (strs : List Bytes) (count : n = (msg.length - 1) / multiPart) :
    (collectAll (some (some (.size (strs.flatten ++ msg).length :: strs.map .string)))
      (parts (n + 1) msg)).map Woken.answer = [.ret (strs.flatten ++ msg)] := by
  induction n generalizing strs msg with
  | zero =>
      have short : ¬ msg.length > multiPart := by
        rw [multiPart] at count ⊢
        omega
      have whole := Clusteragent.concat_eq (strs ++ [msg])
      rw [List.flatten_append, List.flatten_singleton, List.map_append, List.map_singleton] at whole
      rw [parts, if_neg short, collectAll, round]
      change [Woken.answer (.table (.size _ :: (strs.map .string ++ [.string msg])))] = _
      rw [Woken.answer, whole]
  | succ n ih =>
      have long : msg.length > multiPart := by
        rw [multiPart] at count ⊢
        omega
      have rest : n = ((msg.drop multiPart).length - 1) / multiPart := by
        rw [List.length_drop]
        rw [multiPart] at count long ⊢
        omega
      have next := ih (strs ++ [msg.take multiPart]) rest
      rw [List.flatten_append, List.flatten_singleton, List.append_assoc, List.take_append_drop,
        List.map_append, List.map_singleton] at next
      rw [parts, if_pos long, collectAll, round]
      exact next

/-- The packages of a reply wake the coroutine that waits, once. -/
theorem collectAll_pieces (r : Reply) :
    (collectAll (some none) r.pieces).map Woken.answer = [r.answer] := by
  rw [Reply.pieces, Reply.answer]
  by_cases large : r.Large
  · rw [if_pos large, if_pos large.1, collectAll, round]
    exact collectAll_parts [] rfl
  · rw [if_neg large]
    cases r.ok with
    | true => rfl
    | false => rfl

/-- Who is woken waits no more. -/
theorem round_woken (w : Waiting) (x : Response) : (round w x).2 = none ∨ (round w x).1 = none := by
  cases w with
  | none => exact .inl rfl
  | some data =>
      cases x with
      | error msg => exact .inr rfl
      | ok msg => cases data <;> exact .inr rfl
      | begin size => exact .inl rfl
      | part msg => exact .inl rfl

/-- What a package does to a session: nothing to one for which nobody waits. -/
theorem dispatch_session (c : Channel) (payload : Bytes) (k : Nat) :
    ((c.dispatch payload).2 k = none ∨ (c.dispatch payload).1.thread k = none) ∧
      (c.thread k = none →
        (c.dispatch payload).2 k = none ∧ (c.dispatch payload).1.thread k = none) := by
  rw [Channel.dispatch]
  split
  · exact ⟨.inl rfl, fun nobody => ⟨rfl, nobody⟩⟩
  · cases unpackresponse payload with
    | none =>
        refine ⟨.inr rfl, fun nobody => ⟨?_, rfl⟩⟩
        change (c.thread k).map _ = none
        rw [nobody]
        rfl
    | some x =>
        obtain ⟨k', response⟩ := x
        dsimp only
        by_cases own : k = k'
        · subst own
          rw [Function.update_self, Function.update_self]
          refine ⟨round_woken .., fun nobody => ?_⟩
          rw [nobody]
          exact ⟨rfl, rfl⟩
        · rw [Function.update_of_ne own, Function.update_of_ne own]
          exact ⟨.inl rfl, fun nobody => ⟨rfl, nobody⟩⟩

theorem answers_of_nobody {c : Channel} (nobody : c.thread k = none) (payloads : List Bytes) :
    answers k (c.dispatchAll payloads) = [] := by
  induction payloads generalizing c with
  | nil => rfl
  | cons payload payloads ih =>
      obtain ⟨silent, still⟩ := (dispatch_session c payload k).2 nobody
      rw [Channel.dispatchAll, answers, List.filterMap_cons, silent]
      exact ih still

/-- Whatever comes, a coroutine is woken at most once. -/
theorem answers_once (c : Channel) (payloads : List Bytes) (k : Nat) :
    (answers k (c.dispatchAll payloads)).length ≤ 1 := by
  induction payloads generalizing c with
  | nil => exact Nat.zero_le 1
  | cons payload payloads ih =>
      rw [Channel.dispatchAll, answers, List.filterMap_cons]
      cases (dispatch_session c payload k).1 with
      | inl silent =>
          rw [silent]
          exact ih (c.dispatch payload).1
      | inr nobody =>
          have rest := answers_of_nobody nobody payloads
          rw [answers] at rest
          cases (c.dispatch payload).2 k with
          | none =>
              dsimp only
              rw [rest]
              exact Nat.zero_le 1
          | some woken =>
              dsimp only
              rw [List.map_cons, rest]
              exact Nat.le_refl 1

/-- An invalid package wakes all that wait, and nobody is woken after it. -/
theorem answers_of_invalid {c : Channel} (opened : c.closed = false)
    (invalid : unpackresponse payload = none) (payloads : List Bytes) (k : Nat) :
    answers k (c.dispatchAll (payload :: payloads)) =
      if (c.thread k).isSome then [.socketError] else [] := by
  have all : c.dispatch payload = c.wakeupAll := by
    rw [Channel.dispatch, if_neg (by rw [opened]; exact Bool.false_ne_true), invalid]
  have rest : answers k (c.wakeupAll.1.dispatchAll payloads) = [] := answers_of_nobody rfl payloads
  rw [answers] at rest
  rw [Channel.dispatchAll, answers, List.filterMap_cons, all]
  cases waits : c.thread k with
  | none =>
      have silent : c.wakeupAll.2 k = none := congrArg (Option.map _) waits
      rw [silent]
      exact rest
  | some data =>
      have woken : c.wakeupAll.2 k = some .socketError := congrArg (Option.map _) waits
      rw [woken]
      dsimp only
      rw [List.map_cons, rest]
      rfl

/-- The channel treats each session for itself. -/
theorem answers_dispatchAll {c : Channel} (opened : c.closed = false) (sound : ∀ p ∈ ps, Sound p)
    (k : Nat) : answers k (c.dispatchAll (ps.map fun p => p.bytes.drop 2)) =
      (collectAll (c.thread k) ((ofKey Packet.session k ps).map contents)).map Woken.answer := by
  induction ps generalizing c with
  | nil => rfl
  | cons p ps ih =>
      obtain ⟨first, rest⟩ := List.forall_mem_cons.mp sound
      have dispatched : c.dispatch (p.bytes.drop 2) =
          (⟨Function.update c.thread p.session
              (round (c.thread p.session) (contents p)).1, c.closed⟩,
            Function.update (fun _ => none) p.session
              (round (c.thread p.session) (contents p)).2) := by
        rw [Channel.dispatch, if_neg (by rw [opened]; exact Bool.false_ne_true), first.unpacks]
      have next := ih (c := (c.dispatch (p.bytes.drop 2)).1) (by rw [dispatched]; exact opened) rest
      rw [answers] at next
      rw [List.map_cons, Channel.dispatchAll, answers, List.filterMap_cons, dispatched]
      rw [dispatched] at next
      dsimp only at next ⊢
      by_cases own : p.session = k
      · subst own
        have split : ofKey Packet.session p.session (p :: ps) =
            p :: ofKey Packet.session p.session ps :=
          List.filter_cons_of_pos (decide_eq_true rfl)
        rw [Function.update_self] at next ⊢
        rw [split, List.map_cons, collectAll, List.map_append, ← next]
        cases (round (c.thread p.session) (contents p)).2 with
        | none => rfl
        | some woken => rfl
      · have split : ofKey Packet.session k (p :: ps) = ofKey Packet.session k ps :=
          List.filter_cons_of_neg fun same => own (of_decide_eq_true same)
        rw [Function.update_of_ne (Ne.symm own)] at next ⊢
        rw [split, ← next]

/-- Of the packages of some replies, those of a session are those of its reply. -/
theorem ofKey_packets (unique : (rs.map Reply.session).Nodup) (mem : r ∈ rs) :
    ofKey Packet.session r.session (rs.flatMap Reply.packets) = r.packets := by
  have all : ∀ x : Reply, x.session = r.session →
      ofKey Packet.session r.session x.packets = x.packets := by
    intro x same
    refine List.filter_eq_self.mpr fun p mem => ?_
    exact decide_eq_true ((x.packets_pieces.2.1 p mem).1.trans same)
  have nothing : ∀ x : Reply, x.session ≠ r.session →
      ofKey Packet.session r.session x.packets = [] := by
    intro x other
    refine List.filter_eq_nil_iff.mpr fun p mem same => other ?_
    exact (x.packets_pieces.2.1 p mem).1.symm.trans (of_decide_eq_true same)
  induction rs with
  | nil => cases mem
  | cons x xs ih =>
      obtain ⟨fresh, unique⟩ := List.nodup_cons.mp unique
      rw [List.flatMap_cons, ofKey_append]
      cases List.mem_cons.mp mem with
      | inl here =>
          subst here
          have others : ofKey Packet.session r.session (xs.flatMap Reply.packets) = [] := by
            rw [ofKey, List.filter_flatMap]
            refine List.flatMap_eq_nil_iff.mpr fun y mem => nothing y fun same => fresh ?_
            exact same ▸ List.mem_map_of_mem mem
          rw [all r rfl, others, List.append_nil]
      | inr later =>
          have other : x.session ≠ r.session :=
            fun same => fresh (same ▸ List.mem_map_of_mem later)
          rw [nothing x other, List.nil_append, ih unique later]

/-- What happens to the queue in a run. -/
def moves (trace : List (Event × Option Packet)) : List (Overtaking.Event Packet × Option Packet) :=
  trace.map fun
    | (.respond r, o) => (.send r.packets, o)
    | (.take n, o) => (.take n, o)

/-- The replies of a run. -/
def replies (trace : List (Event × Option Packet)) : List Reply :=
  trace.filterMap fun
    | (.respond r, _) => some r
    | _ => none

/-- The bytes that a run writes to the socket. -/
def written (trace : List (Event × Option Packet)) : Bytes :=
  (taken (moves trace)).flatMap Packet.bytes

structure Inv (trace : List (Event × Option Packet)) (s : State) : Prop where
  answered : s.answered = (replies trace).map Reply.session
  once : s.answered.Nodup
  reach : (Overtaking.machine Packet.session Packet.urgent).Reach (moves trace) s.queue
  sends : sent (moves trace) = (replies trace).flatMap Reply.packets

variable {trace : List (Event × Option Packet)} {s s' : State} {e : Event} {o : Option Packet}

theorem Inv.step (inv : Inv trace s) (took : step s e = some (s', o)) :
    Inv (trace ++ [(e, o)]) s' := by
  have moves_eq : moves (trace ++ [(e, o)]) = moves trace ++ moves [(e, o)] := List.map_append ..
  have replies_eq : replies (trace ++ [(e, o)]) = replies trace ++ replies [(e, o)] :=
    List.filterMap_append ..
  have sent_eq : sent (moves trace ++ moves [(e, o)]) =
      sent (moves trace) ++ sent (moves [(e, o)]) := List.flatMap_append ..
  cases e with
  | respond r =>
      rw [Clusterresponses.step] at took
      split at took
      · cases took
      · rename_i fresh
        obtain ⟨x, moved, eq⟩ := Option.map_eq_some_iff.mp took
        cases eq
        refine ⟨?_, ?_, ?_, ?_⟩
        · rw [replies_eq, List.map_append, ← inv.answered]
          rfl
        · exact List.nodup_append.mpr ⟨inv.once, List.nodup_singleton _,
            fun k old k' new same => fresh (List.mem_singleton.mp new ▸ same ▸ old)⟩
        · rw [moves_eq]
          exact inv.reach.next moved
        · rw [moves_eq, sent_eq, replies_eq, List.flatMap_append, inv.sends]
          exact congrArg _ ((List.append_nil _).trans (List.append_nil _).symm)
  | take n =>
      obtain ⟨x, moved, eq⟩ := Option.map_eq_some_iff.mp took
      cases eq
      refine ⟨?_, inv.once, ?_, ?_⟩
      · rw [replies_eq]
        exact inv.answered.trans (congrArg _ (List.append_nil _).symm)
      · rw [moves_eq]
        exact inv.reach.next moved
      · rw [moves_eq, sent_eq, replies_eq, inv.sends]
        rw [List.flatMap_append]
        rfl

theorem Inv.of_reach (reach : machine.Reach trace s) : Inv trace s := by
  refine reach.invariant Inv ⟨rfl, List.nodup_nil, .init, rfl⟩ ?_
  intro trace s e s' o inv took
  exact inv.step took

/-- A reply is sent whatever waits: nothing of its session does. -/
theorem respond_sends (reach : machine.Reach trace s) (fresh : r.session ∉ s.answered) :
    step s (.respond r) = some (⟨s.answered ++ [r.session], s.queue ++ r.packets⟩, none) := by
  have inv := Inv.of_reach reach
  obtain ⟨calm, order⟩ := taken_in_order inv.reach
  have calm' : Calm Packet.session Packet.urgent r.packets :=
    calm_of_urgent fun p mem => (r.packets_pieces.2.1 p mem).2
  have other : ∀ p ∈ s.queue, ∀ q ∈ r.packets, p.session ≠ q.session := by
    intro p waits q mem same
    have here : p ∈ ofKey Packet.session p.session (sent (moves trace)) := by
      rw [← order p.session]
      exact List.mem_append_right _ (List.mem_filter.mpr ⟨waits, decide_eq_true rfl⟩)
    rw [inv.sends] at here
    obtain ⟨x, old, mem'⟩ := List.mem_flatMap.mp (List.mem_filter.mp here).1
    apply fresh
    rw [inv.answered, ← (r.packets_pieces.2.1 q mem).1, ← same, (x.packets_pieces.2.1 p mem').1]
    exact List.mem_map_of_mem old
  rw [step, if_neg fresh, step_send calm calm' other]
  rfl

/-- Over every run of the agent: of whatever part of its stream has come, the coroutine that
waits for a session is woken at most once, with the whole response; it is woken when nothing
waits and all has come. -/
theorem responses_arrive (reach : machine.Reach trace s) (replied : r ∈ replies trace)
    {c : Channel} (opened : c.closed = false) (waits : c.thread r.session = some none)
    {stream : Bytes} (part : stream <+: written trace) :
    answers r.session (c.dispatchAll (framing.split stream).1) <+: [r.answer] ∧
      (stream = written trace → s.queue = [] →
        answers r.session (c.dispatchAll (framing.split stream).1) = [r.answer]) := by
  have inv := Inv.of_reach reach
  obtain ⟨-, order⟩ := taken_in_order inv.reach
  have own : ofKey Packet.session r.session (sent (moves trace)) = r.packets := by
    rw [inv.sends]
    exact ofKey_packets (inv.answered ▸ inv.once) replied
  have taken_sound : ∀ p ∈ taken (moves trace), Sound p := by
    intro p mem
    have also : p ∈ ofKey Packet.session p.session (sent (moves trace)) :=
      order p.session ▸ List.mem_append_left _ (List.mem_filter.mpr ⟨mem, decide_eq_true rfl⟩)
    rw [inv.sends] at also
    obtain ⟨x, -, mem'⟩ := List.mem_flatMap.mp (List.mem_filter.mp also).1
    exact x.packets_pieces.1 p mem'
  have split : framing.split (written trace) =
      ((taken (moves trace)).map fun p => p.bytes.drop 2, []) :=
    Clusteragent.split_packets fun p mem => (taken_sound p mem).frame
  have bodies := Framing.split_prefix (F := framing) part
  rw [split] at bodies
  obtain ⟨n, first⟩ : ∃ n, (framing.split stream).1 =
      ((taken (moves trace)).take n).map fun p => p.bytes.drop 2 :=
    ⟨(framing.split stream).1.length, by
      rw [List.map_take]
      exact List.prefix_iff_eq_take.mp bodies⟩
  constructor
  · rw [first, answers_dispatchAll opened fun p mem => taken_sound p (List.mem_of_mem_take mem)]
    have begins : (ofKey Packet.session r.session ((taken (moves trace)).take n)).map contents <+:
        r.pieces := by
      rw [← r.packets_pieces.2.2, ← own]
      exact (((List.take_prefix n _).filter _).trans (taken_isPrefix inv.reach _)).map contents
    obtain ⟨rest, whole⟩ := begins
    obtain ⟨w, woken⟩ := collectAll_append (some none)
      ((ofKey Packet.session r.session ((taken (moves trace)).take n)).map contents) rest
    rw [waits, ← collectAll_pieces, ← whole, woken, List.map_append]
    exact List.prefix_append ..
  · intro all empty
    have arrived : ofKey Packet.session r.session (taken (moves trace)) = r.packets := by
      have both := order r.session
      rw [empty] at both
      exact (List.append_nil _).symm.trans (both.trans own)
    rw [all, split, answers_dispatchAll opened taken_sound, arrived, waits, r.packets_pieces.2.2,
      collectAll_pieces]

/-- An error for session 1 comes between the parts of the response for session 2. -/
theorem responses_arrive_parts : ∃ trace s, machine.Reach trace s ∧
    (taken (moves trace)).map Packet.session = [2, 1, 2, 2] ∧
      answers 2 (Channel.dispatchAll ⟨fun _ => some none, false⟩
        (framing.split (written trace)).1) = [.ret (List.replicate 0x9000 7)] := by
  have length : (List.replicate 0x9000 (7 : UInt8)).length = 0x9000 := List.length_replicate ..
  generalize List.replicate 0x9000 (7 : UInt8) = msg at length
  obtain ⟨large, session, ok, data⟩ :
      ∃ large : Reply, large.session = 2 ∧ large.ok = true ∧ large.msg = msg :=
    ⟨⟨2, true, msg, by decide, by omega⟩, rfl, rfl, rfl⟩
  have is_large : large.Large := ⟨ok, data ▸ length ▸ (by decide : 0x9000 > multiPart)⟩
  -- the begin, a part and the end
  have count : large.packets.length = 3 := by
    rw [← List.length_map contents, large.packets_pieces.2.2, Reply.pieces, if_pos is_large,
      List.length_cons, parts_length, data, length]
    rfl
  have low : ∀ p ∈ large.packets, p = ⟨false, 2, p.bytes⟩ := by
    intro p mem
    obtain ⟨own, low⟩ := large.packets_pieces.2.1 p mem
    rw [decide_eq_true is_large] at low
    rw [session] at own
    cases p
    cases own
    cases low
    rfl
  obtain ⟨p, q, t, packets⟩ := List.length_eq_three.mp count
  rw [packets] at low
  have first := low p (.head _)
  have second := low q (.tail _ (.head _))
  have third := low t (.tail _ (.tail _ (.head _)))
  have start : machine.Reach [] machine.init := .init
  have sends := respond_sends (r := large) start List.not_mem_nil
  rw [packets, first, second, third, session] at sends
  have told := start.next (e := Event.respond large) sends
  have begun : machine.Reach _ ⟨[2], [⟨false, 2, q.bytes⟩, ⟨false, 2, t.bytes⟩]⟩ :=
    told.next (e := Event.take 0) (o := some ⟨false, 2, p.bytes⟩) rfl
  let error : Reply := ⟨1, false, [9], by decide, by decide⟩
  have behind := begun.next (e := Event.respond error)
    (respond_sends (r := error) begun (by decide : 1 ∉ [2]))
  have overtaken : machine.Reach _ ⟨[2, 1], [⟨false, 2, q.bytes⟩, ⟨false, 2, t.bytes⟩]⟩ :=
    behind.next (e := Event.take 2) (o := error.packets.head?) rfl
  have left : machine.Reach _ ⟨[2, 1], [⟨false, 2, t.bytes⟩]⟩ :=
    overtaken.next (e := Event.take 0) (o := some ⟨false, 2, q.bytes⟩) rfl
  have ended : machine.Reach _ ⟨[2, 1], []⟩ :=
    left.next (e := Event.take 0) (o := some ⟨false, 2, t.bytes⟩) rfl
  refine ⟨_, _, ended, rfl, ?_⟩
  have arrive := (responses_arrive ended (r := large) (.head _) (c := ⟨fun _ => some none, false⟩)
    rfl rfl (List.prefix_refl _)).2 rfl rfl
  rw [session, Reply.answer, if_pos ok, data] at arrive
  exact arrive

end Qiuqiu.Net.Clusterresponses
