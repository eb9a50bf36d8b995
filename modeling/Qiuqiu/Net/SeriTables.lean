import Mathlib.Data.List.Nodup
import Qiuqiu.Base.Outcome
import Qiuqiu.Net.SeriValues

/-!
Tables go through the stream. What is read of a table are the entries it has, in another
order; what cannot be packed is a table from which there is no way out.
-/
namespace Qiuqiu.Net.Seri
open LittleEndian
open Triple (of_bind)

/-- A pair that was set is a pair of a table. -/
def Same (R : Value → Tree → Prop) (e : Value × Value) (s : Tree × Tree) : Prop :=
  R e.1 s.1 ∧ R e.2 s.2

def isNil : Tree → Bool
  | .nil => true
  | _ => false

/-- A tree is what a value means, up to a depth: of a table, what was set other than nil are
its entries; of one with `__pairs`, what this iterates over. -/
def Means (heap : Nat → Table) : Nat → Value → Tree → Prop
  | 0, _, _ => False
  | _ + 1, .nil, .nil => True
  | _ + 1, .boolean b, .boolean b' => b = b'
  | _ + 1, .integer n, .integer n' => n = n'
  | _ + 1, .real bits, .real bits' => bits = bits'
  | _ + 1, .string s, .string s' => s = s'
  | _ + 1, .pointer p, .pointer p' => p = p'
  | level + 1, .table ref, .table sets =>
      match (heap ref).pairs with
      | some none => False
      | some (some pairs) => List.Forall₂ (Same (Means heap level)) pairs sets
      | none => ∃ es, es.Perm (heap ref).entries ∧
          List.Forall₂ (Same (Means heap level)) es (sets.filter fun s => !isNil s.2)
  | _ + 1, _, _ => False

/-- A key is neither nil nor NaN. -/
def Key : Value → Prop
  | .nil => False
  | .real bits => isNaN (.real bits) = false
  | _ => True

/-- Lua promises of a table that it has each key once, with a value; that a `__pairs` gives no
nil or NaN as a key is up to who writes it. -/
structure Table.Proper (t : Table) : Prop where
  nodup : (t.entries.map Prod.fst).Nodup
  keys : ∀ e ∈ t.entries, Key e.1
  values : ∀ e ∈ t.entries, e.2 ≠ .nil
  pairs : ∀ pairs, t.pairs = some (some pairs) → ∀ e ∈ pairs, Key e.1

variable {heap : Nat → Table} {v : Value} {tree : Tree} {stream : Bytes} {level size ref : Nat}
  {one : Bytes → Option (Tree × Bytes)} {t : Table} {pushes : List Bytes} {vs : List Value}
  {streams : List Bytes} {trees array : List Tree} {pairs : List (Value × Value)}

theorem Means.isNil_iff (means : Means heap level v tree) : isNil tree = true ↔ v = .nil := by
  cases level with
  | zero => exact means.elim
  | succ level => cases v <;> cases tree <;> simp_all [Means, isNil]

theorem Means.key (means : Means heap level v tree) (key : Key v) :
    isNil tree = false ∧ isNaN tree = false := by
  cases level with
  | zero => exact means.elim
  | succ level =>
      cases v <;> cases tree <;> simp_all [Means, isNil, Key, isNaN]

theorem Table.Proper.rawget_of_mem (proper : t.Proper) {k : Value} (mem : (k, v) ∈ t.entries) :
    t.rawget k = v := by
  rw [rawget]
  cases found : t.entries.find? fun e => e.1 = k with
  | none => exact absurd (decide_eq_true rfl) (List.find?_eq_none.mp found (k, v) mem)
  | some e =>
      have there := List.mem_of_find?_eq_some found
      have same : e.1 = k :=
        of_decide_eq_true (List.find?_some (p := fun e : Value × Value => e.1 = k) found)
      have whole := List.inj_on_of_nodup_map proper.nodup there mem same
      rw [whole]
      rfl

theorem Table.mem_of_rawget {k : Value} (some_value : t.rawget k ≠ .nil) :
    (k, t.rawget k) ∈ t.entries := by
  rw [rawget] at some_value ⊢
  cases found : t.entries.find? fun e => e.1 = k with
  | none =>
      rw [found] at some_value
      exact absurd rfl some_value
  | some e =>
      have there := List.mem_of_find?_eq_some found
      have same : e.1 = k :=
        of_decide_eq_true (List.find?_some (p := fun e : Value × Value => e.1 = k) found)
      rw [← same]
      exact there

/-- The entries of the array, from 1 on. -/
def Table.arrayEntries (t : Table) : List (Value × Value) :=
  (List.range t.rawlen).map fun i =>
    (.integer (Int64.ofNat (i + 1)), t.rawget (.integer (Int64.ofNat (i + 1))))

theorem toInt_ofNat {i : Nat} (small : i < 2 ^ 31) : (Int64.ofNat i).toInt = i :=
  Int64.toInt_ofNat_of_lt (Nat.lt_trans small (by decide))

/-- The array and the rest are the table. -/
theorem Table.Proper.entries_perm (proper : t.Proper) (short : t.rawlen < 2 ^ 31) :
    ((t.arrayEntries.filter fun e => e.2 ≠ .nil) ++
      t.entries.filter fun e => !inArray t.rawlen e.1).Perm t.entries := by
  have inside : (t.arrayEntries.filter fun e => e.2 ≠ .nil).Perm
      (t.entries.filter fun e => inArray t.rawlen e.1) := by
    refine (List.perm_ext_iff_of_nodup ?_ ?_).mpr fun e => ?_
    · refine (List.Nodup.map_on ?_ List.nodup_range).filter _
      intro i inside j inside' same
      have keys : Value.integer (Int64.ofNat (i + 1)) = .integer (Int64.ofNat (j + 1)) :=
        congrArg Prod.fst same
      have i_lt := List.mem_range.mp inside
      have j_lt := List.mem_range.mp inside'
      have numbers := congrArg Int64.toInt (Value.integer.inj keys)
      rw [toInt_ofNat (by omega), toInt_ofNat (by omega)] at numbers
      omega
    · exact (List.Nodup.of_map _ proper.nodup).filter _
    · rw [List.mem_filter, List.mem_filter, arrayEntries, List.mem_map]
      constructor
      · rintro ⟨⟨i, inside, rfl⟩, some_value⟩
        have i_lt := List.mem_range.mp inside
        refine ⟨mem_of_rawget (of_decide_eq_true some_value), ?_⟩
        have number := toInt_ofNat (i := i + 1) (by omega)
        simp only [inArray, number, Bool.and_eq_true, decide_eq_true_eq]
        omega
      · rintro ⟨there, in_array⟩
        obtain ⟨k, v⟩ := e
        cases k with
        | integer x =>
            simp only [inArray, Bool.and_eq_true, decide_eq_true_eq] at in_array
            have same : Int64.ofNat (x.toInt.toNat - 1 + 1) = x := by
              have back : ((x.toInt.toNat - 1 + 1 : Nat) : Int) = x.toInt := by omega
              rw [← Int64.ofInt_eq_ofNat, back, Int64.ofInt_toInt]
            refine ⟨⟨x.toInt.toNat - 1, List.mem_range.mpr (by omega), ?_⟩,
              decide_eq_true (proper.values _ there)⟩
            rw [same, proper.rawget_of_mem there]
        | nil | boolean | real | string | pointer | table | other => cases in_array
  exact (inside.append_right _).trans (List.filter_append_perm _ _)

/-- What is packed at a level: some bytes that a reader with enough levels reads as what the
value means. -/
def Packs (heap : Nat → Table) (level : Nat) : Prop :=
  ∀ v pushes, packOne heap level v = .ok pushes → pushes.flatten.length < 2 ^ 31 →
    0 < pushes.flatten.length ∧ ∃ tree, Means heap level v tree ∧
      ∀ fuel, pushes.flatten.length ≤ fuel → Reads (unpackOne fuel) pushes.flatten tree

theorem packAll_reads (packs : Packs heap level)
    (packed : packAll (packOne heap level) vs = .ok pushes)
    (short : pushes.flatten.length < 2 ^ 31) :
    vs.length ≤ pushes.flatten.length ∧ ∃ trees, List.Forall₂ (Means heap level) vs trees ∧
      ∀ fuel, pushes.flatten.length ≤ fuel → ∀ rest,
        unpackArray (unpackOne fuel) vs.length (pushes.flatten ++ rest) = some (trees, rest) := by
  induction vs generalizing pushes with
  | nil =>
      cases packed
      exact ⟨Nat.le_refl 0, [], .nil, fun fuel enough rest => rfl⟩
  | cons v vs ih =>
      rw [packAll] at packed
      obtain ⟨first, packed_first, packed⟩ := of_bind packed
      obtain ⟨more, packed_more, packed⟩ := of_bind packed
      cases packed
      rw [List.flatten_append, List.length_append] at short ⊢
      obtain ⟨pos, tree, means, reads⟩ := packs v first packed_first (by omega)
      obtain ⟨long, trees, all, reads_more⟩ := ih packed_more (by omega)
      refine ⟨by rw [List.length_cons]; omega, tree :: trees, .cons means all, ?_⟩
      intro fuel enough rest
      rw [List.length_cons, unpackArray, List.append_assoc, reads fuel (by omega)]
      change (unpackArray (unpackOne fuel) vs.length (more.flatten ++ rest)).bind _ = _
      rw [reads_more fuel (by omega)]
      rfl

theorem nil_reads (level : Nat) : Reads (unpackOne (level + 1)) [combineType 0 0] .nil := by
  intro rest
  change unpackOne (level + 1) (combineType 0 0 :: rest) = _
  rw [unpackOne_combine (by decide) (by decide)]
  rfl

/-- The pairs come back, up to the nil behind them. -/
theorem packAll_hash (packs : Packs heap level) (keys : ∀ e ∈ pairs, Key e.1)
    (packed : packAll (packOne heap level) (pairs.flatMap fun e => [e.1, e.2]) = .ok pushes)
    (short : pushes.flatten.length < 2 ^ 31) :
    pairs.length ≤ pushes.flatten.length ∧
      ∃ sets, List.Forall₂ (Same (Means heap level)) pairs sets ∧
        ∀ fuel, pushes.flatten.length ≤ fuel → 0 < fuel → ∀ rounds, pairs.length < rounds →
          ∀ rest, unpackHash (unpackOne fuel) rounds
            (pushes.flatten ++ ([combineType 0 0] ++ rest)) = some (sets, rest) := by
  induction pairs generalizing pushes with
  | nil =>
      cases packed
      refine ⟨Nat.le_refl 0, [], .nil, ?_⟩
      intro fuel enough pos rounds more rest
      obtain ⟨fuel', rfl⟩ := Nat.exists_eq_add_of_lt pos
      obtain ⟨rounds', rfl⟩ := Nat.exists_eq_add_of_lt more
      rw [unpackHash]
      change (unpackOne (0 + fuel' + 1) ([combineType 0 0] ++ rest)).bind _ = _
      rw [nil_reads (0 + fuel')]
      rfl
  | cons e pairs ih =>
      rw [List.flatMap_cons] at packed
      change packAll _ (e.1 :: e.2 :: _) = _ at packed
      rw [packAll] at packed
      obtain ⟨key, packed_key, packed⟩ := of_bind packed
      obtain ⟨both, packed_both, packed⟩ := of_bind packed
      cases packed
      rw [packAll] at packed_both
      obtain ⟨value, packed_value, packed⟩ := of_bind packed_both
      obtain ⟨more, packed_more, packed⟩ := of_bind packed
      cases packed
      obtain ⟨key_ok, keys_ok⟩ := List.forall_mem_cons.mp keys
      rw [List.flatten_append, List.flatten_append, List.length_append, List.length_append]
        at short ⊢
      obtain ⟨pos, k, means, reads⟩ := packs e.1 key packed_key (by omega)
      obtain ⟨-, v, means', reads'⟩ := packs e.2 value packed_value (by omega)
      obtain ⟨long, sets, all, reads_more⟩ := ih keys_ok packed_more (by omega)
      refine ⟨by rw [List.length_cons]; omega, (k, v) :: sets, .cons ⟨means, means'⟩ all, ?_⟩
      intro fuel enough some_level rounds many rest
      obtain ⟨rounds', rfl⟩ := Nat.exists_eq_add_of_lt many
      obtain ⟨no_nil, no_nan⟩ := means.key key_ok
      rw [unpackHash, List.append_assoc, List.append_assoc]
      change (unpackOne fuel (key.flatten ++ _)).bind _ = _
      rw [reads fuel (by omega)]
      have next : ((unpackOne fuel (value.flatten ++ (more.flatten ++
          ([combineType 0 0] ++ rest)))).bind fun x =>
            if isNaN k = true then none
            else (unpackHash (unpackOne fuel) (pairs.length + 1 + rounds') x.2).bind fun y =>
              some ((k, x.1) :: y.1, y.2)) = some ((k, v) :: sets, rest) := by
        rw [reads' fuel (by omega)]
        change (if isNaN k = true then none else _) = _
        rw [if_neg (by rw [no_nan]; decide), reads_more fuel (by omega) some_level _ (by omega)]
        rfl
      cases k with
      | nil => cases no_nil
      | boolean | integer | real | string | pointer | table => exact next

/-- The size of the array comes back. -/
theorem arraySize_reads (small : size < 2 ^ 31) : ∃ cookie payload, cookie < 32 ∧
    (wbArraySize size).flatten = combineType 6 cookie :: payload ∧
      ∀ rest, arraySize cookie (payload ++ rest) = some (size, rest) := by
  rw [wbArraySize]
  by_cases long : size ≥ maxCookie - 1
  · rw [if_pos long]
    obtain ⟨cookie, payload, short, no_real, flat, reads⟩ := wbInteger_reads (Int64.ofNat size)
    refine ⟨31, combineType 2 cookie :: payload, by decide, ?_, ?_⟩
    · rw [List.flatten_cons, flat]
      rfl
    · intro rest
      have back : (toInt32 (Int64.ofNat size).toInt).toNat = size := by
        rw [toInt_ofNat small, toInt32, signed_unsigned (by decide) (by omega) (by omega)]
        rfl
      rw [List.cons_append, arraySize, if_pos (by decide : 31 = maxCookie - 1),
        combineType_type (by decide) short, combineType_cookie (by decide) short,
        if_neg (by omega), reads, Option.map_some]
      dsimp only
      rw [back]
  · rw [if_neg long]
    have tiny : size < 31 := Nat.not_le.mp long
    refine ⟨size, [], by omega, rfl, ?_⟩
    intro rest
    unfold arraySize
    rw [if_neg (by rw [maxCookie]; omega)]
    rfl

/-- What is set in the array are the entries it has. -/
theorem arraySets_same {values : List Value} (means : List.Forall₂ (Means heap level) values trees)
    (n : Nat) :
    List.Forall₂ (Same (Means heap level))
      ((values.zipIdx n).map fun x => (.integer (Int64.ofNat (x.2 + 1)), x.1))
      ((trees.zipIdx n).map fun x => (.integer (Int64.ofNat (x.2 + 1)), x.1)) := by
  induction means generalizing n with
  | nil => exact .nil
  | @cons v tree vs trees first rest ih =>
      refine .cons ⟨?_, first⟩ (ih (n + 1))
      cases level with
      | zero => exact first.elim
      | succ level => rfl

theorem zipIdx_range {α : Type} (f : Nat → α) (n k : Nat) :
    (((List.range' k n).map f).zipIdx k) = (List.range' k n).map fun i => (f i, i) := by
  induction n generalizing k with
  | zero => rfl
  | succ n ih =>
      rw [List.range'_succ, List.map_cons, List.map_cons, List.zipIdx_cons, ih]

theorem arrayEntries_eq (t : Table) : t.arrayEntries =
    (((List.range t.rawlen).map fun i => t.rawget (.integer (Int64.ofNat (i + 1)))).zipIdx 0).map
      fun x => (.integer (Int64.ofNat (x.2 + 1)), x.1) := by
  rw [List.range_eq_range', zipIdx_range, List.map_map, Table.arrayEntries, List.range_eq_range']
  rfl

theorem same_value {e : Value × Value} {s : Tree × Tree} (same : Same (Means heap level) e s) :
    (decide (e.2 ≠ .nil) = true) ↔ ((!isNil s.2) = true) := by
  have iff := same.2.isNil_iff
  cases nil : isNil s.2 with
  | true => simp [iff.mp nil]
  | false =>
      have some_value : e.2 ≠ .nil := fun empty => by
        rw [iff.mpr empty] at nil
        cases nil
      simp [some_value]

/-- The values of a table, read, are what the table means. -/
theorem table_means (proper : (heap ref).Proper) {hash : List (Value × Value)}
    {values : List Value} {sets : List (Tree × Tree)}
    (written : (heap ref).values = some (size, values, hash)) (small : size < 2 ^ 31)
    (means : List.Forall₂ (Means heap level) values trees)
    (means' : List.Forall₂ (Same (Means heap level)) hash sets) :
    Means heap (level + 1) (.table ref) (.table (arraySets trees ++ sets)) := by
  rw [Table.values] at written
  rw [Means]
  cases pairs : (heap ref).pairs with
  | some iterated =>
      rw [pairs] at written
      cases iterated with
      | none => cases written
      | some pairs' =>
          cases written
          cases means
          exact means'
  | none =>
      rw [pairs] at written
      cases written
      have array := arraySets_same means 0
      rw [← arrayEntries_eq] at array
      have all := List.rel_append array means'
      have some_values := List.rel_filter (fun e s same => same_value same) all
      refine ⟨_, ?_, some_values⟩
      rw [List.filter_append]
      have kept : ((heap ref).entries.filter fun e => !inArray (heap ref).rawlen e.1).filter
          (fun e => e.2 ≠ .nil) =
            (heap ref).entries.filter fun e => !inArray (heap ref).rawlen e.1 :=
        List.filter_eq_self.mpr fun e mem =>
          decide_eq_true (proper.values e (List.mem_filter.mp mem).1)
      rw [kept]
      exact proper.entries_perm small

theorem wbString_length (s : Bytes) : s.length < (wbString s).flatten.length := by
  rw [wbString]
  split
  · split
    · simp
    · simp_all
  · split <;> simp only [List.flatten_cons, List.flatten_nil, List.length_append,
      List.length_cons, List.length_nil, length_bytes] <;> omega

theorem values_length {values : List Value} {hash : List (Value × Value)}
    (written : t.values = some (size, values, hash)) : size = values.length := by
  rw [Table.values] at written
  split at written
  · cases written
  · cases written
    rfl
  · cases written
    rw [List.length_map, List.length_range]

theorem Table.Proper.written_keys (proper : t.Proper) {values : List Value}
    {hash : List (Value × Value)} (written : t.values = some (size, values, hash)) :
    ∀ e ∈ hash, Key e.1 := by
  rw [Table.values] at written
  split at written
  · cases written
  · rename_i pairs same
    cases written
    exact proper.pairs _ same
  · cases written
    exact fun e mem => proper.keys e (List.mem_filter.mp mem).1

/-- A level more packs one table more. -/
theorem Packs.succ (proper : ∀ ref, (heap ref).Proper) (packs : Packs heap level) :
    Packs heap (level + 1) := by
  -- a value without parts, with the fuel as a successor
  have simple : ∀ (tree : Tree) {v : Value} {pushes : List Bytes},
      0 < pushes.flatten.length → Means heap (level + 1) v tree →
      (∀ fuel, Reads (unpackOne (fuel + 1)) pushes.flatten tree) →
      0 < pushes.flatten.length ∧ ∃ tree, Means heap (level + 1) v tree ∧
        ∀ fuel, pushes.flatten.length ≤ fuel → Reads (unpackOne fuel) pushes.flatten tree := by
    intro tree v pushes pos means reads
    refine ⟨pos, tree, means, fun fuel enough => ?_⟩
    obtain ⟨fuel', rfl⟩ := Nat.exists_eq_add_of_lt (Nat.lt_of_lt_of_le pos enough)
    exact reads (0 + fuel')
  intro v pushes packed short
  cases v with
  | nil =>
      cases packed
      exact simple .nil (by decide : 0 < 1) trivial nil_reads
  | boolean b =>
      cases packed
      refine simple (.boolean b) (by decide : 0 < 1) rfl fun fuel rest => ?_
      cases b <;> rfl
  | integer n =>
      cases packed
      obtain ⟨cookie, payload, -, -, flat, -⟩ := wbInteger_reads n
      exact simple (.integer n) (by rw [flat]; exact Nat.succ_pos _) rfl (integer_reads n)
  | real bits =>
      cases packed
      exact simple (.real bits) (Nat.succ_pos _) rfl (real_reads bits)
  | string s =>
      cases packed
      have long := wbString_length s
      exact simple (.string s) (by omega) rfl (string_reads (by omega))
  | pointer p =>
      cases packed
      exact simple (.pointer p) (Nat.succ_pos _) rfl (pointer_reads p)
  | other name => cases packed
  | table ref =>
      rw [packOne] at packed
      cases written : (heap ref).values with
      | none =>
          rw [written] at packed
          cases packed
      | some x =>
          obtain ⟨size, values, entries⟩ := x
          rw [written] at packed
          obtain ⟨array, packed_array, packed⟩ := of_bind packed
          obtain ⟨hash, packed_hash, packed⟩ := of_bind packed
          cases packed
          have keys : ∀ e ∈ entries, Key e.1 := (proper ref).written_keys written
          have counted : size = values.length := values_length written
          simp only [List.flatten_append, List.length_append, List.flatten_singleton] at short ⊢
          obtain ⟨many, trees, means, reads⟩ := packAll_reads packs packed_array (by omega)
          obtain ⟨many', sets, means', reads'⟩ := packAll_hash packs keys packed_hash (by omega)
          have small : size < 2 ^ 31 := by omega
          obtain ⟨cookie, payload, tiny, flat, size_reads⟩ := arraySize_reads small
          refine ⟨by rw [flat, List.length_cons]; omega, .table (arraySets trees ++ sets),
            table_means (proper ref) written small means means', ?_⟩
          intro fuel enough rest
          rw [flat, List.length_cons, List.length_singleton] at enough
          obtain ⟨fuel', rfl⟩ := Nat.exists_eq_add_of_lt (by omega : 0 < fuel)
          have array_read := reads (0 + fuel') (by omega)
            (hash.flatten ++ ([combineType 0 0] ++ rest))
          have hash_read := reads' (0 + fuel') (by omega) (by omega)
            (hash.flatten ++ ([combineType 0 0] ++ rest)).length
            (by simp only [List.length_append, List.length_singleton]; omega) rest
          rw [flat]
          simp only [List.cons_append, List.append_assoc]
          rw [unpackOne_combine (by decide) tiny, pushValue, unpackTable, size_reads]
          change (unpackArray (unpackOne (0 + fuel')) size _).bind _ = _
          rw [counted]
          have array_read' := array_read
          simp only [List.cons_append, List.nil_append] at array_read' hash_read ⊢
          rw [array_read']
          change (unpackHash (unpackOne (0 + fuel')) _ _).bind _ = _
          rw [hash_read]
          rfl

theorem packs_all (proper : ∀ ref, (heap ref).Proper) (level : Nat) : Packs heap level := by
  induction level with
  | zero =>
      intro v pushes packed
      cases packed
  | succ level ih => exact ih.succ proper

theorem unpackLoop_eq {n rounds : Nat} {rb : Bytes} (empty : one [] = none)
    (read : unpackArray one n rb = some (trees, [])) (enough : n ≤ rounds) :
    unpackLoop one rounds rb = some trees := by
  induction n generalizing rounds rb trees with
  | zero =>
      cases read
      cases rounds <;> rfl
  | succ n ih =>
      obtain ⟨rounds', rfl⟩ := Nat.exists_eq_add_of_lt (Nat.lt_of_lt_of_le (Nat.succ_pos n) enough)
      rw [unpackArray] at read
      cases first : one rb with
      | none =>
          rw [first] at read
          cases read
      | some x =>
          obtain ⟨v, rb'⟩ := x
          rw [first] at read
          change (unpackArray one n rb').bind (fun y => some (v :: y.1, y.2)) = _ at read
          obtain ⟨⟨vs, rb''⟩, more, eq⟩ := Option.bind_eq_some_iff.mp read
          cases eq
          cases rb with
          | nil =>
              rw [empty] at first
              cases first
          | cons byte rb =>
              rw [unpackLoop, first]
              change (unpackLoop one (0 + rounds') rb').bind _ = _
              · rw [ih more (by omega)]
                rfl
              · exact fun same => by cases same

/-- Whatever is packed is unpacked: the arguments come back as what they mean. -/
theorem unpack_pack {args : List Value} (proper : ∀ ref, (heap ref).Proper)
    (packed : pack heap args = .ok stream) (short : stream.length < 2 ^ 31) :
    ∃ trees, unpack stream = some trees ∧ List.Forall₂ (Means heap 33) args trees := by
  rw [pack_eq] at packed
  cases pushed : packAll (packOne heap 33) args with
  | error reason =>
      rw [pushed] at packed
      cases packed
  | ok pushes =>
      rw [pushed] at packed
      cases packed
      obtain ⟨many, trees, means, reads⟩ := packAll_reads (packs_all proper 33) pushed short
      have read := reads _ (Nat.le_refl _) []
      rw [List.append_nil] at read
      have nothing : unpackOne pushes.flatten.length [] = none := by
        cases pushes.flatten.length <;> rfl
      exact ⟨trees, unpackLoop_eq nothing read many, means⟩

/-- A table holds another one twice, and this one a third. -/
def sharedTables : Nat → Table
  | 0 => ⟨2, [(.integer 1, .table 1), (.integer 2, .table 1), (.string [107], .integer (-300))],
      none⟩
  | 1 => ⟨0, [(.boolean true, .table 2)], none⟩
  | _ => ⟨1, [(.integer 1, .real 0)], none⟩

/-- The tables come back, with a copy where one is shared. -/
theorem unpack_pack_shared : ∃ stream trees, unpack stream = some trees ∧
    List.Forall₂ (Means sharedTables 33) [.table 0, .nil, .table 1] trees := by
  have proper : ∀ ref, (sharedTables ref).Proper
    | 0 => ⟨by simp [sharedTables], by simp [sharedTables, Key], by simp [sharedTables],
        by simp [sharedTables]⟩
    | 1 => ⟨by simp [sharedTables], by simp [sharedTables, Key], by simp [sharedTables],
        by simp [sharedTables]⟩
    | _ + 2 => ⟨by simp [sharedTables], by simp [sharedTables, Key], by simp [sharedTables],
        by simp [sharedTables]⟩
  obtain ⟨trees, read, means⟩ := unpack_pack proper
    (rfl : pack sharedTables [.table 0, .nil, .table 1] = .ok _) (by decide +kernel)
  exact ⟨_, trees, read, means⟩

/-- What is met in a table on the way through it. -/
def children (heap : Nat → Table) (ref : Nat) : List Value :=
  match (heap ref).values with
  | none => []
  | some (_, array, hash) => array ++ hash.flatMap fun e => [e.1, e.2]

/-- A value is reached from another through some tables. -/
inductive Reaches (heap : Nat → Table) : Nat → Value → Value → Prop
  | refl {v : Value} : Reaches heap 0 v v
  | step {n ref : Nat} {v w : Value} : v ∈ children heap ref → Reaches heap n v w →
      Reaches heap (n + 1) (.table ref) w

/-- A value of a type that can be packed. -/
def Supported (heap : Nat → Table) : Value → Prop
  | .other _ => False
  | .table ref => (heap ref).pairs ≠ some none
  | _ => True

theorem packAll_ok {f : Value → Except Failure (List Bytes)} :
    (∃ pushes, packAll f vs = .ok pushes) ↔ ∀ v ∈ vs, ∃ pushes, f v = .ok pushes := by
  induction vs with
  | nil => exact ⟨fun _ v mem => absurd mem List.not_mem_nil, fun _ => ⟨[], rfl⟩⟩
  | cons v vs ih =>
      rw [List.forall_mem_cons, ← ih]
      constructor
      · rintro ⟨pushes, packed⟩
        rw [packAll] at packed
        obtain ⟨first, packed_first, packed⟩ := of_bind packed
        obtain ⟨more, packed_more, -⟩ := of_bind packed
        exact ⟨⟨first, packed_first⟩, more, packed_more⟩
      · rintro ⟨⟨first, packed_first⟩, more, packed_more⟩
        exact ⟨first ++ more, by rw [packAll, packed_first, packed_more]; rfl⟩

theorem values_none : (heap ref).values = none ↔ (heap ref).pairs = some none := by
  rw [Table.values]
  split
  · rename_i fails
    simp [fails]
  · rename_i iterates
    simp [iterates]
  · rename_i plain
    simp [plain]

/-- A value is packed exactly when everything that is reached from it can be, and in fewer
tables than there are levels. -/
theorem packOne_ok : (∃ pushes, packOne heap level v = .ok pushes) ↔
    ∀ n w, Reaches heap n v w → n < level ∧ Supported heap w := by
  induction level generalizing v with
  | zero =>
      constructor
      · rintro ⟨pushes, packed⟩
        cases packed
      · intro all
        exact absurd (all 0 v .refl).1 (Nat.lt_irrefl 0)
  | succ level ih =>
      have leaf : (∀ ref, v ≠ .table ref) → Supported heap v →
          ∀ n w, Reaches heap n v w → n < level + 1 ∧ Supported heap w := by
        intro no_table supported n w reaches
        cases reaches with
        | refl => exact ⟨Nat.succ_pos _, supported⟩
        | step => exact absurd rfl (no_table _)
      cases v with
      | nil | boolean | integer | real | string | pointer =>
          exact iff_of_true ⟨_, rfl⟩ (leaf (fun ref same => by cases same) trivial)
      | other name =>
          refine iff_of_false (fun packed => ?_) (fun all => (all 0 _ .refl).2)
          obtain ⟨pushes, packed⟩ := packed
          cases packed
      | table ref =>
          rw [packOne]
          cases written : (heap ref).values with
          | none =>
              refine iff_of_false (fun packed => ?_) (fun all => ?_)
              · obtain ⟨pushes, packed⟩ := packed
                cases packed
              · exact (all 0 _ .refl).2 (values_none.mp written)
          | some x =>
              obtain ⟨size, array, hash⟩ := x
              have inside : children heap ref = array ++ hash.flatMap fun e => [e.1, e.2] := by
                rw [children, written]
              have parts : (∃ pushes, (do
                  let array ← packAll (packOne heap level) array
                  let hash ← packAll (packOne heap level) (hash.flatMap fun e => [e.1, e.2])
                  return wbArraySize size ++ array ++ hash ++ [[combineType 0 0]] :
                    Except Failure (List Bytes)) = .ok pushes) ↔
                  ∀ v ∈ children heap ref, ∃ pushes, packOne heap level v = .ok pushes := by
                rw [inside, List.forall_mem_append, ← packAll_ok, ← packAll_ok]
                constructor
                · rintro ⟨pushes, packed⟩
                  obtain ⟨first, packed_first, packed⟩ := of_bind packed
                  obtain ⟨more, packed_more, -⟩ := of_bind packed
                  exact ⟨⟨first, packed_first⟩, more, packed_more⟩
                · rintro ⟨⟨first, packed_first⟩, more, packed_more⟩
                  exact ⟨_, by rw [packed_first, packed_more]; rfl⟩
              refine parts.trans ?_
              constructor
              · intro all n w reaches
                cases reaches with
                | refl => exact ⟨Nat.succ_pos _, fun fails => by
                    rw [values_none.mpr fails] at written
                    cases written⟩
                | step mem later =>
                    obtain ⟨deep, supported⟩ := ih.mp (all _ mem) _ _ later
                    exact ⟨Nat.succ_lt_succ deep, supported⟩
              · intro all v mem
                refine ih.mpr fun n w reaches => ?_
                obtain ⟨deep, supported⟩ := all (n + 1) w (.step mem reaches)
                exact ⟨Nat.lt_of_succ_lt_succ deep, supported⟩

/-- Packing succeeds exactly when everything that is reached from the arguments can be packed,
in 32 tables at most. -/
theorem pack_ok_iff (heap : Nat → Table) (args : List Value) :
    (∃ stream, pack heap args = .ok stream) ↔
      ∀ v ∈ args, ∀ n w, Reaches heap n v w → n ≤ 32 ∧ Supported heap w := by
  have flat : (∃ stream, pack heap args = .ok stream) ↔
      ∃ pushes, packAll (packOne heap 33) args = .ok pushes := by
    rw [pack_eq]
    cases packAll (packOne heap 33) args with
    | error reason =>
        exact iff_of_false (fun ⟨_, ran⟩ => by cases ran) (fun ⟨_, ran⟩ => by cases ran)
    | ok pushes => exact iff_of_true ⟨_, rfl⟩ ⟨_, rfl⟩
  rw [flat, packAll_ok]
  refine forall₂_congr fun v mem => packOne_ok.trans ?_
  exact forall₂_congr fun n w => imp_congr_right fun _ => and_congr_left' Nat.lt_succ_iff

theorem Reaches.trans {n m : Nat} {u w : Value} (first : Reaches heap n u v)
    (more : Reaches heap m v w) : Reaches heap (n + m) u w := by
  induction first with
  | refl => rwa [Nat.zero_add]
  | step mem _ ih =>
      rw [Nat.add_right_comm]
      exact .step mem (ih more)

/-- A value that is reached from itself is refused. -/
theorem pack_cycle {n : Nat} (cycle : Reaches heap (n + 1) v v) :
    ∀ stream, pack heap [v] ≠ .ok stream := by
  intro stream packed
  have rounds : ∀ k, ∃ m, k ≤ m ∧ Reaches heap m v v := by
    intro k
    induction k with
    | zero => exact ⟨0, Nat.le_refl 0, .refl⟩
    | succ k ih =>
        obtain ⟨m, long, around⟩ := ih
        exact ⟨m + (n + 1), by omega, around.trans cycle⟩
  obtain ⟨m, long, around⟩ := rounds 33
  have deep := (pack_ok_iff heap [v]).mp ⟨stream, packed⟩ v (List.mem_singleton.mpr rfl) m v around
  omega

end Qiuqiu.Net.Seri
