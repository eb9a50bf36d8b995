import Qiuqiu.Base.Ledger
import Qiuqiu.Base.Machine
import Qiuqiu.Database.Cache

/-!
Who frees the buffers of the cache (service/databasecell/dbcache.lua). A buffer
that is added belongs to the cache: it is trashed when another one replaces it or
when its entry is deleted, and an addition of the pointer that is cached already
hands nothing over. The three caches keep one ledger.
-/
namespace Qiuqiu.Database

def Entry.buffer (d : Entry) : List (Ptr × Nat) := [(d.dataPtr, d.sz)]

/-- The buffers of a table, with their sizes. -/
def Cache.held (t : Table Entry) : List (Ptr × Nat) := Ledger.owned Entry.buffer t

/-- The buffer that an addition hands over, none if it is cached under the key. -/
def Cache.handed (t : Table Entry) (key : String) (dataPtr : Ptr) (sz : Nat) :
    Option (Ptr × Nat) :=
  if (t.lookup key).map Entry.dataPtr = some dataPtr then none else some (dataPtr, sz)

namespace Dbcache
variable {Md5 : Type} (c : Dbcache Md5)

def heldUid : List (Ptr × Nat) := Ledger.owned Cache.held c.cacheUid

def held : List (Ptr × Nat) := Cache.held c.cacheUrs ++ (c.heldUid ++ Cache.held c.cacheMod)

def addresses : List Nat := c.held.map (·.1.addr)

end Dbcache

namespace Buffers
variable {Md5 : Type}

inductive Event where
  | addCacheUrs (urs : String) (dataPtr : Ptr) (sz quotedsz : Nat)
  | delCacheUrs (urs : Value)
  | addCacheUid (uid act : String) (dataPtr : Ptr) (sz quotedsz : Nat) (name : Option String)
  | delCacheUid (uid act : Value)
  | addCacheMod (mod : String) (dataPtr : Ptr) (sz quotedsz : Nat)
  | delCacheMod (mod : Value)

/-- An addition of a pointer that is cached under its key, or of one that the cache
does not hold. The answer is what is handed over. -/
def accept (c : Dbcache Md5) (handed : Option (Ptr × Nat)) (after : Dbcache Md5) :
    Option (Dbcache Md5 × Option (Ptr × Nat)) :=
  if ∀ x ∈ handed, x.1.addr ∉ c.addresses then some (after, handed) else none

def step (c : Dbcache Md5) : Event → Option (Dbcache Md5 × Option (Ptr × Nat))
  | .addCacheUrs urs dataPtr sz quotedsz =>
      accept c (Cache.handed c.cacheUrs urs dataPtr sz) (c.addCacheUrs urs dataPtr sz quotedsz)
  | .delCacheUrs urs => some (c.delCacheUrs urs, none)
  | .addCacheUid uid act dataPtr sz quotedsz name =>
      accept c (Cache.handed ((c.cacheUid.lookup uid).getD ∅) act dataPtr sz)
        (c.addCacheUid uid act dataPtr sz quotedsz name)
  | .delCacheUid uid act => some (c.delCacheUid uid act, none)
  | .addCacheMod mod dataPtr sz quotedsz =>
      accept c (Cache.handed c.cacheMod mod dataPtr sz) (c.addCacheMod mod dataPtr sz quotedsz)
  | .delCacheMod mod => some (c.delCacheMod mod, none)

def machine (Md5 : Type) : Machine (Dbcache Md5) Event (Option (Ptr × Nat)) where
  init := .empty
  step := step

/-- The buffers that a run handed over, with the sizes they came with. -/
def given (trace : List (Event × Option (Ptr × Nat))) : List (Ptr × Nat) :=
  trace.filterMap Prod.snd

end Buffers

section Tables
variable (t : Table Entry) (key : String)

theorem Cache.add_balance (dataPtr : Ptr) (sz quotedsz : Nat) (name : Option String) :
    ((Cache.handed t key dataPtr sz).toList ++ Cache.held t).Perm
      ((Cache.add t key dataPtr sz quotedsz name).2 ++
        Cache.held (Cache.add t key dataPtr sz quotedsz name).1) := by
  simp only [Cache.add, Cache.handed]
  cases held : t.lookup key with
  | none =>
      simp only [Option.map_none, reduceCtorEq, if_false, Option.toList_some, List.nil_append]
      rw [Cache.held, Cache.held, Ledger.owned_insert, Ledger.owned_erase_absent held]
      exact .rfl
  | some d =>
      have parts : (Cache.held t).Perm (d.buffer ++ Cache.held (t.erase key)) :=
        Ledger.owned_lookup held
      simp only [Option.map_some, Option.some.injEq]
      by_cases same : dataPtr = d.dataPtr
      · simp only [same, if_true, Option.toList_none, List.nil_append]
        exact parts
      · simp only [same, Ne.symm same, if_false, Option.toList_some]
        exact (parts.cons (dataPtr, sz)).trans (.swap ..)

theorem Cache.del_balance (key : Value) :
    ([] ++ Cache.held t).Perm ((Cache.del t key).2 ++ Cache.held (Cache.del t key).1) := by
  cases key with
  | nil | boolean _ => exact .rfl
  | string s =>
      cases held : t.lookup s with
      | none =>
          simp only [Cache.del, held]
          exact .rfl
      | some d =>
          simp only [Cache.del, held]
          exact Ledger.owned_lookup held

/-- An entry is added, so the table is not empty. -/
theorem Cache.add_ne_nil (dataPtr : Ptr) (sz quotedsz : Nat) (name : Option String) :
    (Cache.add t key dataPtr sz quotedsz name).1.keys ≠ [] := by
  simp only [Cache.add]
  cases t.lookup key with
  | none | some d =>
      rw [AList.keys_insert]
      exact List.cons_ne_nil _ _

/-- A change of one of the caches in the ledger of all. -/
theorem frame {α : Type} {handed freed before after : List α}
    (moved : (handed ++ before).Perm (freed ++ after)) (left right : List α) :
    (handed ++ (left ++ (before ++ right))).Perm (freed ++ (left ++ (after ++ right))) :=
  calc (handed ++ (left ++ (before ++ right))).Perm (left ++ (handed ++ (before ++ right))) :=
        List.perm_append_comm_assoc ..
    _ |>.Perm (left ++ (freed ++ (after ++ right))) := by
        rw [← List.append_assoc handed, ← List.append_assoc freed]
        exact (moved.append_right right).append_left left
    _ |>.Perm (freed ++ (left ++ (after ++ right))) := List.perm_append_comm_assoc ..

end Tables

namespace Dbcache
variable {Md5 : Type} (c : Dbcache Md5)

/-- No uid has an empty table. -/
def Filled : Prop := ∀ uid acts, c.cacheUid.lookup uid = some acts → acts.keys ≠ []

/-- What an operation does with the buffers: it frees some, and holds the others
together with what is handed over. -/
structure Moves (handed : List (Ptr × Nat)) (c' : Dbcache Md5) : Prop where
  ledger : ∃ freed, c'.trash = c.trash ++ freed ∧ (handed ++ c.held).Perm (freed ++ c'.held)
  filled : c.Filled → c'.Filled

theorem addCacheUrs_moves (urs : String) (dataPtr : Ptr) (sz quotedsz : Nat) :
    c.Moves (Cache.handed c.cacheUrs urs dataPtr sz).toList
      (c.addCacheUrs urs dataPtr sz quotedsz) :=
  ⟨⟨_, rfl, frame (Cache.add_balance ..) [] _⟩, id⟩

theorem delCacheUrs_moves (urs : Value) : c.Moves [] (c.delCacheUrs urs) :=
  ⟨⟨_, rfl, frame (Cache.del_balance ..) [] _⟩, id⟩

theorem held_mod :
    c.held = Cache.held c.cacheUrs ++ c.heldUid ++ (Cache.held c.cacheMod ++ []) := by
  rw [held, List.append_nil, List.append_assoc]

theorem addCacheMod_moves (mod : String) (dataPtr : Ptr) (sz quotedsz : Nat) :
    c.Moves (Cache.handed c.cacheMod mod dataPtr sz).toList
      (c.addCacheMod mod dataPtr sz quotedsz) := by
  refine ⟨⟨_, rfl, ?_⟩, id⟩
  rw [held_mod, held_mod]
  exact frame (Cache.add_balance ..) _ []

theorem delCacheMod_moves (mod : Value) : c.Moves [] (c.delCacheMod mod) := by
  refine ⟨⟨_, rfl, ?_⟩, id⟩
  rw [held_mod, held_mod]
  exact frame (Cache.del_balance ..) _ []

/-- The buffers of a uid and those of the others. -/
theorem heldUid_perm (uid : String) :
    c.heldUid.Perm (Cache.held ((c.cacheUid.lookup uid).getD ∅) ++
      Ledger.owned Cache.held (c.cacheUid.erase uid)) := by
  cases held : c.cacheUid.lookup uid with
  | none =>
      rw [Option.getD_none, Ledger.owned_erase_absent held]
      exact .rfl
  | some acts => exact Ledger.owned_lookup held

/-- A change of the table of one uid. -/
theorem uid_balance {uid : String} {handed freed after : List (Ptr × Nat)}
    (moved : (handed ++ Cache.held ((c.cacheUid.lookup uid).getD ∅)).Perm (freed ++ after)) :
    (handed ++ c.heldUid).Perm
      (freed ++ (after ++ Ledger.owned Cache.held (c.cacheUid.erase uid))) :=
  ((c.heldUid_perm uid).append_left handed).trans (frame moved [] _)

theorem addCacheUid_moves (uid act : String) (dataPtr : Ptr) (sz quotedsz : Nat)
    (name : Option String) :
    c.Moves (Cache.handed ((c.cacheUid.lookup uid).getD ∅) act dataPtr sz).toList
      (c.addCacheUid uid act dataPtr sz quotedsz name) := by
  refine ⟨⟨_, rfl, frame (c.uid_balance (Cache.add_balance ..)) _ _⟩, ?_⟩
  intro filled uid' acts found
  simp only [addCacheUid] at found
  by_cases same : uid' = uid
  · rw [same, AList.lookup_insert] at found
    obtain rfl := Option.some.inj found
    apply Cache.add_ne_nil
  · rw [AList.lookup_insert_ne same] at found
    exact filled uid' acts found

theorem Moves.rfl : c.Moves [] c := ⟨⟨[], (List.append_nil _).symm, .rfl⟩, id⟩

/-- The table of a uid after a deletion: an empty one is taken out. -/
def putActs (t : Table (Table Entry)) (uid : String) (acts : Table Entry) : Table (Table Entry) :=
  if acts.keys = [] then t.erase uid else t.insert uid acts

theorem owned_putActs (t : Table (Table Entry)) (uid : String) (acts : Table Entry) :
    Ledger.owned Cache.held (putActs t uid acts) =
      Cache.held acts ++ Ledger.owned Cache.held (t.erase uid) := by
  simp only [putActs]
  split
  · rename_i empty
    have entries : acts.entries = [] := List.map_eq_nil_iff.mp empty
    have none : Cache.held acts = [] := by
      rw [Cache.held, Ledger.owned, entries, List.flatMap_nil]
    rw [none, List.nil_append]
  · exact Ledger.owned_insert

theorem lookup_putActs {t : Table (Table Entry)} {uid uid' : String} {acts acts' : Table Entry}
    (found : (putActs t uid acts).lookup uid' = some acts') :
    acts'.keys ≠ [] ∨ t.lookup uid' = some acts' := by
  simp only [putActs] at found
  split at found
  · by_cases same : uid' = uid
    · rw [same, AList.lookup_erase] at found
      cases found
    · rw [AList.lookup_erase_ne same] at found
      exact .inr found
  · rename_i filled
    by_cases same : uid' = uid
    · rw [same, AList.lookup_insert] at found
      obtain rfl := Option.some.inj found
      exact .inl filled
    · rw [AList.lookup_insert_ne same] at found
      exact .inr found

theorem delCacheUid_moves (uid act : Value) : c.Moves [] (c.delCacheUid uid act) := by
  cases uid with
  | nil | boolean _ => exact .rfl c
  | string uid =>
      cases found : c.cacheUid.lookup uid with
      | none =>
          simp only [delCacheUid, found]
          exact .rfl c
      | some acts =>
          simp only [delCacheUid, found]
          split
          · refine ⟨⟨_, Eq.refl _, ?_⟩, ?_⟩
            · have moved := Cache.del_balance acts act
              rw [← Option.getD_some (a := acts) (b := ∅), ← found] at moved
              have balance := c.uid_balance moved
              rw [found, Option.getD_some, ← owned_putActs] at balance
              exact frame balance _ _
            · intro filled uid' acts' held
              exact (lookup_putActs held).elim id (filled uid' acts')
          · exact .rfl c

end Dbcache

namespace Buffers
variable {Md5 : Type} {c c' : Dbcache Md5} {e : Event} {handed : Option (Ptr × Nat)}

theorem step_moves (moved : step c e = some (c', handed)) :
    c.Moves handed.toList c' ∧ ∀ x ∈ handed, x.1.addr ∉ c.addresses := by
  have admitted : ∀ {handed' after}, accept c handed' after = some (c', handed) →
      c.Moves handed'.toList after →
      c.Moves handed.toList c' ∧ ∀ x ∈ handed, x.1.addr ∉ c.addresses := by
    intro handed' after added moves
    simp only [accept] at added
    split at added
    · rename_i fresh
      cases added
      exact ⟨moves, fresh⟩
    · cases added
  cases e with
  | addCacheUrs urs dataPtr sz quotedsz => exact admitted moved (c.addCacheUrs_moves ..)
  | addCacheUid uid act dataPtr sz quotedsz name => exact admitted moved (c.addCacheUid_moves ..)
  | addCacheMod mod dataPtr sz quotedsz => exact admitted moved (c.addCacheMod_moves ..)
  | delCacheUrs urs =>
      cases moved
      exact ⟨c.delCacheUrs_moves urs, nofun⟩
  | delCacheUid uid act =>
      cases moved
      exact ⟨c.delCacheUid_moves uid act, nofun⟩
  | delCacheMod mod =>
      cases moved
      exact ⟨c.delCacheMod_moves mod, nofun⟩

/-- The buffers handed over are those trashed and those held, none of which is held
twice, and no uid has an empty table. -/
structure Balanced (given : List (Ptr × Nat)) (c : Dbcache Md5) : Prop where
  ledger : given.Perm (c.trash ++ c.held)
  apart : c.addresses.Nodup
  filled : c.Filled

theorem Balanced.move {given : List (Ptr × Nat)} (balanced : Balanced given c)
    {handed : Option (Ptr × Nat)} (moves : c.Moves handed.toList c')
    (fresh : ∀ x ∈ handed, x.1.addr ∉ c.addresses) :
    Balanced (given ++ handed.toList) c' := by
  obtain ⟨freed, trash, moved⟩ := moves.ledger
  refine ⟨?_, ?_, moves.filled balanced.filled⟩
  · rw [trash]
    calc (given ++ handed.toList).Perm (c.trash ++ c.held ++ handed.toList) :=
          balanced.ledger.append_right _
      _ |>.Perm (c.trash ++ (handed.toList ++ c.held)) := by
          rw [List.append_assoc]
          exact List.perm_append_comm.append_left _
      _ |>.Perm (c.trash ++ freed ++ c'.held) := by
          rw [List.append_assoc]
          exact moved.append_left _
  · have nodup : ((handed.toList ++ c.held).map (·.1.addr)).Nodup := by
      cases handed with
      | none => exact balanced.apart
      | some x => exact List.nodup_cons.mpr ⟨fresh x rfl, balanced.apart⟩
    have after := (moved.map (·.1.addr)).nodup_iff.mp nodup
    rw [List.map_append] at after
    exact after.of_append_right

theorem balanced_of_reach {trace : List (Event × Option (Ptr × Nat))}
    (reach : (machine Md5).Reach trace c) : Balanced (given trace) c := by
  induction reach with
  | init => exact ⟨.nil, List.nodup_nil, nofun⟩
  | next _ moved ih =>
      rw [given, Machine.filterMap_concat]
      obtain ⟨moves, fresh⟩ := step_moves moved
      exact ih.move moves fresh

/-- Every buffer is trashed once when it is not cached any more, and not before. -/
structure OwnedOnce (trace : List (Event × Option (Ptr × Nat))) (c : Dbcache Md5) : Prop where
  ledger : (given trace).Perm (c.trash ++ c.held)
  apart : c.addresses.Nodup
  /-- A pointer that was handed over once, with the size `sz`. -/
  once : ∀ p sz, (given trace).filter (fun x => x.1.addr = p.addr) = [(p, sz)] →
    if p.addr ∈ c.addresses then p.addr ∉ c.trash.map (·.1.addr)
    else c.trash.filter (fun x => x.1.addr = p.addr) = [(p, sz)]
  inner : ∀ uid acts, c.cacheUid.lookup uid = some acts → acts.keys ≠ []

theorem ownedOnce {trace : List (Event × Option (Ptr × Nat))}
    (reach : (machine Md5).Reach trace c) : OwnedOnce trace c := by
  have balanced := balanced_of_reach reach
  refine ⟨balanced.ledger, balanced.apart, ?_, balanced.filled⟩
  intro p sz single
  exact Ledger.once_of_balance (fun x => x.1.addr) (x := (p, sz)) balanced.ledger single

/-- A run that replaces a buffer, adds the same pointer again and deletes it. -/
theorem ownedOnce_of_replaced :
    ∃ trace c, (machine Nat).Reach trace c ∧
      c.trash = [(⟨4096, [1]⟩, 1), (⟨8192, [2, 3]⟩, 2)] ∧ OwnedOnce trace c := by
  have reach : (machine Nat).Reach _ _ :=
    .next (.next (.next (.next .init (e := .addCacheUid "u1" "data" ⟨4096, [1]⟩ 1 3 none) rfl)
      (e := .addCacheUid "u1" "data" ⟨8192, [2, 3]⟩ 2 5 (some "n")) rfl)
      (e := .addCacheUid "u1" "data" ⟨8192, [2, 3]⟩ 7 9 none) rfl)
      (e := .delCacheUid (.string "u1") (.string "data")) rfl
  exact ⟨_, _, reach, rfl, ownedOnce reach⟩

end Buffers

end Qiuqiu.Database
