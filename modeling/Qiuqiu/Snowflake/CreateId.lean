import Mathlib.Data.Nat.Bitwise
import Mathlib.Data.String.Basic
import Qiuqiu.Base.Digits
import Qiuqiu.Base.Machine

/-!
The generator of ids (skynet/lualib-src/lua-skynet.c, `lcreate_id`). An id has
the server, the robot, the second and the sequence number as digits of base 32.
The sequence number runs on through the seconds up to 2^30, one more than its
six digits hold, and starts again in any second but the one it began in.
-/
namespace Qiuqiu.Snowflake

def maxServerId : Int := 1073741823
def serverMaxBit : Nat := 30
def maxRobotNo : Int := 31
def robotMaxBit : Nat := 10
def timeMaxBit : Nat := 35
def seqMaxValue : Nat := 1073741823
def seqMaxBit : Nat := 30
def sfStep : Nat := 5
def sfBaseNum : Nat := 31
def baseChar : List Char := "0123456789abcdefghijklmnopqrstuv".toList
def arrSumLen : Nat := (serverMaxBit + robotMaxBit + timeMaxBit + seqMaxBit) / sfStep + 1

/-- `SF_NODE`. -/
structure Node where
  seq : Nat
  sec : Nat

inductive Error where
  | serverIdRange
  | robotNoRange
  | createIdFail
  | invalidNumber (n : Nat)
  | badIndex (index : Nat)

/-- The characters written from the end of `result` on, and the next index, a `uint8_t`. -/
structure Buffer where
  result : List Char
  index : Nat

/-- One of the loops; `split` is what it reads of the number in a round. -/
def Buffer.write (split : Nat → Nat) : Nat → Nat → Buffer → Except Error Buffer
  | 0, _, b => .ok b
  | rounds + 1, n, b =>
      match baseChar[split n &&& sfBaseNum]? with
      | none => .error (.invalidNumber (split n))
      | some c => write split rounds (n >>> sfStep) ⟨c :: b.result, (b.index + 255) % 256⟩

/-- The first byte of the union. -/
def byte (n : Nat) : Nat := n % 2 ^ 8

def format (serverId robotNo nowtime seq : Nat) : Except Error String := do
  let b ← Buffer.write id (seqMaxBit / sfStep) seq ⟨[], arrSumLen - 2⟩
  let b ← Buffer.write byte (timeMaxBit / sfStep) nowtime b
  let b ← Buffer.write byte (robotMaxBit / sfStep) (robotNo % 2 ^ 8) b
  let b ← Buffer.write byte (serverMaxBit / sfStep) (serverId % 2 ^ 32) b
  if b.index ≠ 255 then throw (.badIndex b.index)
  return String.ofList b.result

/-- The sequence number of the next id. -/
def Node.advance (node : Node) (nowtime : Nat) : Except Error Node :=
  if node.sec = 0 then .ok ⟨0, nowtime⟩
  else if node.seq > seqMaxValue ∧ node.sec = nowtime then .error .createIdFail
  else if node.seq > seqMaxValue ∧ node.sec ≠ nowtime then .ok ⟨0, nowtime⟩
  else .ok { node with seq := (node.seq + 1) % 2 ^ 32 }

/-- `mutex` stays locked after an error, if the process outlives it. `clock` is the time of the
last call. -/
structure State where
  node : Node
  locked : Bool
  clock : Nat

inductive Event where
  | createId (serverId robotNo : Int) (nowtime : Nat)

def lcreateId (node : Node) (serverId robotNo : Int) (nowtime : Nat) :
    Except Error String × Node :=
  if serverId ≤ 0 ∨ serverId > maxServerId then (.error .serverIdRange, node)
  else if robotNo ≤ 0 ∨ robotNo > maxRobotNo then (.error .robotNoRange, node)
  else
    match node.advance nowtime with
    | .error err => (.error err, node)
    | .ok next => (format serverId.toNat robotNo.toNat nowtime next.seq, next)

/-- A call that finds the mutex locked does not return. The clock does not go back. -/
def step (s : State) : Event → Option (State × Except Error String)
  | .createId serverId robotNo nowtime =>
      if s.locked ∨ nowtime < s.clock ∨ 2 ^ timeMaxBit ≤ nowtime then none
      else
        let out := lcreateId s.node serverId robotNo nowtime
        some (⟨out.2, !out.1.toBool, nowtime⟩, out.1)

def machine : Machine State Event (Except Error String) where
  init := ⟨⟨0, 0⟩, false, 0⟩
  step := step

/-- The ids given out, each with the server and the robot it was asked for. -/
def issued (trace : List (Event × Except Error String)) : List (Int × Int × String) :=
  trace.filterMap fun
    | (.createId serverId robotNo _, .ok id) => some (serverId, robotNo, id)
    | (_, .error _) => none

section Format

def digit (d : Nat) : Char := baseChar.getD d '0'

theorem baseChar_get {d : Nat} (small : d < 32) : baseChar[d]? = some (digit d) := by
  have all : ∀ d < 32, baseChar[d]? = some (digit d) := by decide
  exact all d small

theorem digit_inj (d : Nat) (small : d < 32) (d' : Nat) (small' : d' < 32)
    (same : digit d = digit d') : d = d' := by
  have distinct : baseChar.Nodup := by decide
  refine (List.getElem?_inj small distinct).mp ?_
  rw [baseChar_get small, baseChar_get small', same]

/-- The digits that a loop writes. -/
def written (rounds n : Nat) : List Char := Digits.digits 32 digit rounds n

theorem Buffer.write_eq (split : Nat → Nat) (low : ∀ n, split n % 32 = n % 32)
    (rounds n : Nat) {b : Buffer} (small : b.index < 256) :
    Buffer.write split rounds n b =
      .ok ⟨written rounds n ++ b.result, (b.index + 255 * rounds) % 256⟩ := by
  induction rounds generalizing n b with
  | zero => simp [Buffer.write, written, Digits.digits, Nat.mod_eq_of_lt small]
  | succ rounds ih =>
      have read : split n &&& sfBaseNum = n % 32 := by
        rw [← low n]
        exact Nat.and_two_pow_sub_one_eq_mod _ 5
      have shift : n >>> sfStep = n / 32 := Nat.shiftRight_eq_div_pow n 5
      have index : ((b.index + 255) % 256 + 255 * rounds) % 256 =
          (b.index + 255 * (rounds + 1)) % 256 := by omega
      simp only [Buffer.write, read, baseChar_get (Nat.mod_lt n (by decide : 32 > 0)), shift]
      rw [ih _ (Nat.mod_lt _ (by decide)), index, written, written, Digits.digits_succ_append]

theorem byte_low (n : Nat) : byte n % 32 = n % 32 :=
  Nat.mod_mod_of_dvd n (by decide)

theorem format_eq (serverId robotNo nowtime seq : Nat) :
    format serverId robotNo nowtime seq =
      .ok (String.ofList (written 6 (serverId % 2 ^ 32) ++ (written 2 (robotNo % 2 ^ 8) ++
        (written 7 nowtime ++ written 6 seq)))) := by
  simp only [format]
  rw [Buffer.write_eq id (fun _ => rfl) _ _ (by decide)]
  simp only [bind, Except.bind]
  rw [Buffer.write_eq byte byte_low _ _ (Nat.mod_lt _ (by decide))]
  simp only
  rw [Buffer.write_eq byte byte_low _ _ (Nat.mod_lt _ (by decide))]
  simp only
  rw [Buffer.write_eq byte byte_low _ _ (Nat.mod_lt _ (by decide))]
  simp only [List.append_nil]
  rfl

theorem format_inj {serverId robotNo nowtime nowtime' seq seq' : Nat} {id : String}
    (made : format serverId robotNo nowtime seq = .ok id)
    (made' : format serverId robotNo nowtime' seq' = .ok id) :
    nowtime % 2 ^ 35 = nowtime' % 2 ^ 35 ∧ seq % 2 ^ 30 = seq' % 2 ^ 30 := by
  rw [format_eq] at made made'
  have same := String.ofList_injective (Except.ok.inj (made.trans made'.symm))
  have tail := List.append_cancel_left (List.append_cancel_left same)
  obtain ⟨time, number⟩ := Digits.append_inj (by decide) digit_inj tail
  exact ⟨time, Digits.digits_inj (by decide) digit_inj number⟩

end Format

section Runs
variable {node next : Node} {nowtime clock time seq : Nat}

theorem advance_cases (h : node.advance nowtime = .ok next) :
    (node.sec = 0 ∨ seqMaxValue < node.seq) ∧ next = ⟨0, nowtime⟩ ∨
      node.sec ≠ 0 ∧ node.seq ≤ seqMaxValue ∧ next = ⟨node.seq + 1, node.sec⟩ := by
  simp only [Node.advance] at h
  split at h
  case isTrue unused =>
      cases h
      exact .inl ⟨.inl unused, rfl⟩
  case isFalse used =>
      split at h
      · cases h
      case isFalse =>
          split at h
          case isTrue exhausted =>
              cases h
              exact .inl ⟨.inr exhausted.1, rfl⟩
          case isFalse =>
              cases h
              have room : node.seq ≤ seqMaxValue := by omega
              have small : (node.seq + 1) % 2 ^ 32 = node.seq + 1 := by
                simp only [seqMaxValue] at room
                omega
              rw [small]
              exact .inr ⟨used, room, rfl⟩

/-- A time and a sequence number that were used: before the counter began, or in
its present round, whose first second is `sec`. -/
structure Used (node : Node) (clock time seq : Nat) : Prop where
  started : 0 < node.sec
  past : time ≤ clock
  round : time < node.sec ∨ seq ≤ node.seq ∧ (seq = 0 → time = node.sec)

/-- The clock is not at zero, the number that six digits do not hold is not used
in the second of the first, and the counter does not begin in the second of the
call before. -/
def spaced (s : State) : Event → Bool
  | .createId _ _ nowtime =>
      0 < nowtime && (s.node.seq ≠ seqMaxValue || nowtime ≠ s.node.sec) &&
        (s.node.seq ≤ seqMaxValue || nowtime ≠ s.clock)

theorem spaced_iff {s : State} {serverId robotNo : Int} :
    spaced s (.createId serverId robotNo nowtime) = true ↔
      0 < nowtime ∧ (s.node.seq = seqMaxValue → nowtime ≠ s.node.sec) ∧
        (seqMaxValue < s.node.seq → nowtime ≠ s.clock) := by
  simp only [spaced, Bool.and_eq_true, Bool.or_eq_true, decide_eq_true_eq, and_assoc,
    ← Nat.not_lt (a := seqMaxValue), imp_iff_not_or, ne_eq]

variable {s : State} {serverId robotNo : Int}

theorem Used.advance (used : Used s.node s.clock time seq)
    (good : spaced s (.createId serverId robotNo nowtime) = true)
    (later : s.clock ≤ nowtime) (h : s.node.advance nowtime = .ok next) :
    Used next nowtime time seq := by
  obtain ⟨started, past, round⟩ := used
  obtain ⟨positive, _, begins⟩ := spaced_iff.mp good
  cases advance_cases h with
  | inl reset =>
      obtain ⟨exhausted, rfl⟩ := reset
      have before : time < nowtime := by
        have := begins (exhausted.resolve_left (by omega))
        omega
      exact ⟨positive, before.le, .inl before⟩
  | inr goes =>
      obtain ⟨_, _, rfl⟩ := goes
      refine ⟨started, past.trans later, ?_⟩
      exact round.imp_right fun present => ⟨present.1.trans (Nat.le_succ _), present.2⟩

theorem used_next (good : spaced s (.createId serverId robotNo nowtime) = true)
    (h : s.node.advance nowtime = .ok next) : Used next nowtime nowtime next.seq := by
  obtain ⟨positive, _, _⟩ := spaced_iff.mp good
  cases advance_cases h with
  | inl reset =>
      obtain ⟨_, rfl⟩ := reset
      exact ⟨positive, le_rfl, .inr ⟨le_rfl, fun _ => rfl⟩⟩
  | inr goes =>
      obtain ⟨used, _, rfl⟩ := goes
      exact ⟨Nat.pos_of_ne_zero used, le_rfl, .inr ⟨le_rfl, nofun⟩⟩

/-- What was used is not used again. -/
theorem Used.ne_next (used : Used s.node s.clock time seq)
    (good : spaced s (.createId serverId robotNo nowtime) = true)
    (later : s.clock ≤ nowtime) (sec : s.node.sec ≤ s.clock)
    (h : s.node.advance nowtime = .ok next) :
    ¬ (time = nowtime ∧ seq % 2 ^ 30 = next.seq % 2 ^ 30) := by
  rintro ⟨rfl, same⟩
  obtain ⟨started, past, round⟩ := used
  obtain ⟨_, wraps, begins⟩ := spaced_iff.mp good
  cases advance_cases h with
  | inl reset =>
      have := begins (reset.1.resolve_left (by omega))
      omega
  | inr goes =>
      obtain ⟨_, room, rfl⟩ := goes
      have same : seq % 2 ^ 30 = (s.node.seq + 1) % 2 ^ 30 := same
      simp only [seqMaxValue] at room wraps
      have present := round.resolve_left (by omega)
      by_cases last : s.node.seq = 1073741823
      · have first : seq = 0 := by omega
        exact wraps last (present.2 first)
      · omega

/-- What a call can do: it fails and leaves the mutex locked, or it gives the id
of the next sequence number. -/
theorem step_cases {s' : State} {o : Except Error String}
    (h : step s (.createId serverId robotNo nowtime) = some (s', o)) :
    s.locked = false ∧ s.clock ≤ nowtime ∧ nowtime < 2 ^ 35 ∧
      ((∃ err, o = .error err ∧ s' = ⟨s.node, true, nowtime⟩) ∨
        ∃ next id, s.node.advance nowtime = .ok next ∧
          format serverId.toNat robotNo.toNat nowtime next.seq = .ok id ∧
          o = .ok id ∧ s' = ⟨next, false, nowtime⟩) := by
  simp only [step] at h
  split at h
  · cases h
  case isFalse free =>
      obtain ⟨unlocked, later, below⟩ := not_or.mp free |>.imp_right not_or.mp
      refine ⟨Bool.not_eq_true _ ▸ unlocked, Nat.not_lt.mp later, Nat.not_le.mp below, ?_⟩
      cases h
      simp only [lcreateId]
      split
      · exact .inl ⟨_, rfl, rfl⟩
      · split
        · exact .inl ⟨_, rfl, rfl⟩
        · cases advanced : s.node.advance nowtime with
          | error err => exact .inl ⟨err, rfl, rfl⟩
          | ok next =>
              simp only [format_eq]
              exact .inr ⟨next, _, rfl, rfl, rfl, rfl⟩

theorem mem_issued {trace : List (Event × Except Error String)} {id : String} :
    (serverId, robotNo, id) ∈ issued trace ↔
      ∃ nowtime, (Event.createId serverId robotNo nowtime, Except.ok id) ∈ trace := by
  simp only [issued, List.mem_filterMap]
  constructor
  · rintro ⟨⟨⟨serverId', robotNo', nowtime⟩, o⟩, mem, held⟩
    cases o with
    | error err => cases held
    | ok id' =>
        cases held
        exact ⟨nowtime, mem⟩
  · rintro ⟨nowtime, mem⟩
    exact ⟨_, mem, rfl⟩

/-- The ids given out are different, and each is of a time and a number that were used. -/
structure Unique (trace : List (Event × Except Error String)) (s : State) : Prop where
  sec_le : s.node.sec ≤ s.clock
  used : ∀ serverId robotNo nowtime id,
    (Event.createId serverId robotNo nowtime, Except.ok id) ∈ trace →
      ∃ seq, format serverId.toNat robotNo.toNat nowtime seq = .ok id ∧ nowtime < 2 ^ 35 ∧
        Used s.node s.clock nowtime seq
  nodup : (issued trace).Nodup

theorem advance_sec_le (h : s.node.advance nowtime = .ok next) (sec : s.node.sec ≤ s.clock)
    (later : s.clock ≤ nowtime) : next.sec ≤ nowtime := by
  cases advance_cases h with
  | inl reset =>
      obtain ⟨_, rfl⟩ := reset
      exact le_rfl
  | inr goes =>
      obtain ⟨_, _, rfl⟩ := goes
      exact sec.trans later

theorem Unique.step {trace : List (Event × Except Error String)} {e : Event} {s' : State}
    {o : Except Error String} (unique : Unique trace s) (good : spaced s e = true)
    (h : step s e = some (s', o)) : Unique (trace ++ [(e, o)]) s' := by
  obtain ⟨serverId, robotNo, nowtime⟩ := e
  obtain ⟨_, later, below, fails | gives⟩ := step_cases h
  · obtain ⟨err, rfl, rfl⟩ := fails
    refine ⟨unique.sec_le.trans later, ?_, ?_⟩
    · intro serverId' robotNo' nowtime' id mem
      have mem := (List.mem_append.mp mem).resolve_right (by simp)
      obtain ⟨seq, made, small, used⟩ := unique.used _ _ _ _ mem
      exact ⟨seq, made, small, used.started, used.past.trans later, used.round⟩
    · rw [issued, Machine.filterMap_concat_none rfl]
      exact unique.nodup
  · obtain ⟨next, id, advanced, made, rfl, rfl⟩ := gives
    refine ⟨advance_sec_le advanced unique.sec_le later, ?_, ?_⟩
    · intro serverId' robotNo' nowtime' id' mem
      cases List.mem_append.mp mem with
      | inl mem =>
          obtain ⟨seq, made, small, used⟩ := unique.used _ _ _ _ mem
          exact ⟨seq, made, small, used.advance good later advanced⟩
      | inr last =>
          cases List.mem_singleton.mp last
          exact ⟨next.seq, made, below, used_next good advanced⟩
    · rw [issued, Machine.filterMap_concat]
      refine List.nodup_append.mpr ⟨unique.nodup, List.pairwise_singleton _ _, ?_⟩
      rintro ⟨serverId', robotNo', id'⟩ mem entry last rfl
      cases List.mem_singleton.mp last
      obtain ⟨nowtime', mem⟩ := mem_issued.mp mem
      obtain ⟨seq, made', small, used⟩ := unique.used _ _ _ _ mem
      obtain ⟨time, number⟩ := format_inj made' made
      rw [Nat.mod_eq_of_lt small, Nat.mod_eq_of_lt below] at time
      exact used.ne_next good later unique.sec_le advanced ⟨time, number⟩

theorem ids_unique_of_spaced {trace : List (Event × Except Error String)} {s : State}
    (reach : (machine.guard spaced).Reach trace s) : (issued trace).Nodup := by
  have unique : Unique trace s := by
    refine reach.invariant Unique ⟨le_rfl, nofun, List.nodup_nil⟩ ?_
    intro trace s e s' o unique h
    obtain ⟨good, h⟩ := Machine.guard_step h
    exact unique.step good h
  exact unique.nodup

/-- The counter runs on while the clock stands still. -/
theorem reach_seq (seq : Nat) (small : seq ≤ seqMaxValue) :
    ∃ trace, (machine.guard spaced).Reach trace ⟨⟨seq, 1⟩, false, 1⟩ := by
  induction seq with
  | zero => exact ⟨_, .next .init (e := .createId 1 1 1) rfl⟩
  | succ seq ih =>
      obtain ⟨trace, reach⟩ := ih (Nat.le_of_succ_le small)
      have room : seq < 1073741823 := small
      have advanced : Node.advance ⟨seq, 1⟩ 1 = .ok ⟨seq + 1, 1⟩ := by
        have kept : ¬ seqMaxValue < seq := Nat.not_lt.mpr room.le
        have fits : seq + 1 < 4294967296 := by omega
        simp [Node.advance, kept, fits]
      have answer : machine.step ⟨⟨seq, 1⟩, false, 1⟩ (.createId 1 1 1) =
          some (⟨⟨seq + 1, 1⟩, false, 1⟩, format 1 1 1 (seq + 1)) := by
        simp only [machine, step, lcreateId, advanced, format_eq]
        rfl
      have good : spaced ⟨⟨seq, 1⟩, false, 1⟩ (.createId 1 1 1) = true :=
        spaced_iff.mpr ⟨Nat.one_pos, fun last => absurd last room.ne,
          fun past => absurd past (Nat.not_lt.mpr room.le)⟩
      exact ⟨_, reach.next ((Machine.guard_step_of good).trans answer)⟩

/-- The number that six digits do not hold is taken in a later second than the first, and the
counter begins again in a later one still. -/
theorem ids_unique_of_exhausted :
    ∃ trace s, (machine.guard spaced).Reach trace s ∧ s.node = ⟨0, 3⟩ ∧
      (1, 1, "000001010000002000000") ∈ issued trace ∧ (issued trace).Nodup := by
  obtain ⟨trace, reach⟩ := reach_seq seqMaxValue le_rfl
  have last : (machine.guard spaced).Reach _ ⟨⟨2 ^ 30, 1⟩, false, 2⟩ :=
    reach.next (e := .createId 1 1 2) (o := .ok "000001010000002000000") rfl
  have again : (machine.guard spaced).Reach _ ⟨⟨0, 3⟩, false, 3⟩ :=
    last.next (e := .createId 1 1 3) (o := .ok "000001010000003000000") rfl
  refine ⟨_, _, again, rfl, ?_, ids_unique_of_spaced again⟩
  rw [issued, Machine.filterMap_concat, Machine.filterMap_concat]
  simp

/-- A call of this second gave an id with this number. -/
def Given (trace : List (Event × Except Error String)) (nowtime seq : Nat) : Prop :=
  ∃ serverId robotNo id, (Event.createId serverId robotNo nowtime, Except.ok id) ∈ trace ∧
    format serverId.toNat robotNo.toNat nowtime seq = .ok id

theorem Given.later {trace : List (Event × Except Error String)} (given : Given trace time seq)
    (x : Event × Except Error String) : Given (trace ++ [x]) time seq := by
  obtain ⟨serverId, robotNo, id, mem, made⟩ := given
  exact ⟨serverId, robotNo, id, List.mem_append_left _ mem, made⟩

/-- The calls that the counter remembers: the first of its round, and the last one
when the numbers are used up. -/
structure Remembers (trace : List (Event × Except Error String)) (s : State) : Prop where
  first : s.node.sec ≠ 0 → Given trace s.node.sec 0
  bound : s.node.seq ≤ 2 ^ 30
  last : seqMaxValue < s.node.seq → s.locked = false → Given trace s.clock s.node.seq

theorem Remembers.step {trace : List (Event × Except Error String)} {e : Event} {s' : State}
    {o : Except Error String} (remembers : Remembers trace s)
    (h : step s e = some (s', o)) : Remembers (trace ++ [(e, o)]) s' := by
  obtain ⟨serverId, robotNo, nowtime⟩ := e
  obtain ⟨_, _, _, fails | gives⟩ := step_cases h
  · obtain ⟨err, rfl, rfl⟩ := fails
    exact ⟨fun used => (remembers.first used).later _, remembers.bound, nofun⟩
  · obtain ⟨next, id, advanced, made, rfl, rfl⟩ := gives
    have here : Given (trace ++ [(.createId serverId robotNo nowtime, .ok id)]) nowtime next.seq :=
      ⟨serverId, robotNo, id, List.mem_append_right _ List.mem_cons_self, made⟩
    cases advance_cases advanced with
    | inl reset =>
        obtain ⟨_, rfl⟩ := reset
        exact ⟨fun _ => here, Nat.zero_le _, nofun⟩
    | inr goes =>
        obtain ⟨used, room, rfl⟩ := goes
        exact ⟨fun _ => (remembers.first used).later _, Nat.succ_le_succ room, fun _ _ => here⟩

theorem reach_remembers {trace : List (Event × Except Error String)} {s : State}
    (reach : machine.Reach trace s) : Remembers trace s := by
  refine reach.invariant Remembers ?_ ?_
  · exact ⟨fun used => absurd rfl used, Nat.zero_le _, fun used => absurd used (by decide)⟩
  · intro _ _ _ _ _ remembers h
    exact remembers.step h

/-- Outside the condition a call repeats a number of its second: it gives the id of
an earlier call again if that one was for the same server and robot. -/
theorem repeats_of_not_spaced {trace : List (Event × Except Error String)} {s' : State}
    {id : String} (reach : machine.Reach trace s) (positive : 0 < nowtime)
    (h : step s (.createId serverId robotNo nowtime) = some (s', .ok id))
    (bad : spaced s (.createId serverId robotNo nowtime) = false) :
    ∃ seq seq', Given trace nowtime seq ∧ seq % 2 ^ 30 = seq' % 2 ^ 30 ∧
      format serverId.toNat robotNo.toNat nowtime seq' = .ok id := by
  have remembers := reach_remembers reach
  obtain ⟨free, _, _, fails | gives⟩ := step_cases h
  · obtain ⟨_, impossible, _⟩ := fails
    cases impossible
  · obtain ⟨next, id, advanced, made, ⟨⟩, rfl⟩ := gives
    have breaks : s.node.seq = seqMaxValue ∧ nowtime = s.node.sec ∨
        seqMaxValue < s.node.seq ∧ nowtime = s.clock := by
      have not := mt spaced_iff.mpr (Bool.not_eq_true _ ▸ bad)
      grind
    cases breaks with
    | inl wraps =>
        obtain ⟨full, rfl⟩ := wraps
        refine ⟨0, next.seq, remembers.first positive.ne', ?_, made⟩
        cases advance_cases advanced with
        | inl reset =>
            obtain ⟨_, rfl⟩ := reset
            rfl
        | inr goes =>
            obtain ⟨_, _, rfl⟩ := goes
            simp [full, seqMaxValue]
    | inr begins =>
        obtain ⟨exhausted, rfl⟩ := begins
        refine ⟨s.node.seq, next.seq, remembers.last exhausted free, ?_, made⟩
        have full : s.node.seq = 2 ^ 30 := Nat.le_antisymm remembers.bound exhausted
        cases advance_cases advanced with
        | inl reset =>
            obtain ⟨_, rfl⟩ := reset
            simp [full]
        | inr goes => exact absurd goes.2.1 (Nat.not_le.mpr exhausted)

/-- Two calls in one second, the first of which takes the number that six digits
do not hold, give the same id. -/
theorem two_ids_of_exhausted :
    ∃ trace s, machine.Reach trace s ∧ ¬ (issued trace).Nodup := by
  obtain ⟨trace, guarded⟩ := reach_seq seqMaxValue le_rfl
  have reach := guarded.of_guard
  have first : machine.step ⟨⟨seqMaxValue, 1⟩, false, 1⟩ (.createId 1 1 2) =
      some (⟨⟨2 ^ 30, 1⟩, false, 2⟩, .ok "000001010000002000000") := rfl
  have second : machine.step ⟨⟨2 ^ 30, 1⟩, false, 2⟩ (.createId 1 1 2) =
      some (⟨⟨0, 2⟩, false, 2⟩, .ok "000001010000002000000") := rfl
  refine ⟨_, _, (reach.next first).next second, ?_⟩
  rw [issued, Machine.filterMap_concat, Machine.filterMap_concat, List.append_assoc]
  intro nodup
  have twice := (List.nodup_append.mp nodup).2.1
  simp at twice

end Runs

end Qiuqiu.Snowflake
