import Mathlib.Data.List.Nodup
import Qiuqiu.Base.WriteBack
import Qiuqiu.Database.ModuleRuns

/-!
A flush of the urs cache: the snapshot of `GetAllCacheUrs` (dbcache.lua) says which
entries are to be evicted, and `real_list_setdata_ptrq` (dbsave.lua) saves every
key of it. Each key has a slot of its own, since the text of a statement says whose
row it is, and every way through a save evicts what it is told to evict.
-/
namespace Qiuqiu.Database
open WriteBack

section Targets

/-- The character that an escape sequence stands for, as a number. -/
def unescape : Char → Nat
  | '0' => 0
  | 'b' => 8
  | 'n' => 10
  | 'r' => 13
  | 't' => 9
  | 'Z' => 26
  | c => c.toNat

theorem escapeChar_cases (c : Char) :
    (escapeChar c).toList = [c] ∧ c ≠ '\\' ∨
      ∃ x, (escapeChar c).toList = ['\\', x] ∧ unescape x = c.toNat := by
  simp only [escapeChar]
  split
  case h_10 _ _ _ _ _ _ notBackslash _ _ =>
      refine .inl ⟨String.toList_singleton c, ?_⟩
      rintro rfl
      exact notBackslash rfl
  all_goals
    rename_i code
    rw [code]
    exact .inr ⟨_, rfl, rfl⟩

/-- The first character tells how long an escape is, and the escape tells the character. -/
theorem escapeChar_append_inj {c c' : Char} {rest rest' : List Char}
    (same : (escapeChar c).toList ++ rest = (escapeChar c').toList ++ rest') :
    c = c' ∧ rest = rest' := by
  obtain ⟨plain, notBackslash⟩ | ⟨x, escaped, code⟩ := escapeChar_cases c
  · obtain ⟨plain', -⟩ | ⟨x', escaped', -⟩ := escapeChar_cases c'
    · rw [plain, plain'] at same
      exact List.cons.inj same
    · rw [plain, escaped'] at same
      exact absurd (List.cons.inj same).1 notBackslash
  · obtain ⟨plain', notBackslash'⟩ | ⟨x', escaped', code'⟩ := escapeChar_cases c'
    · rw [escaped, plain'] at same
      exact absurd (List.cons.inj same).1.symm notBackslash'
    · rw [escaped, escaped'] at same
      obtain ⟨sameX, rests⟩ := List.cons.inj (List.cons.inj same).2
      rw [sameX, code'] at code
      exact ⟨Char.toNat_inj.mp code.symm, rests⟩

theorem escape_inj {s s' : List Char}
    (same : s.flatMap (fun c => (escapeChar c).toList) =
      s'.flatMap (fun c => (escapeChar c).toList)) : s = s' := by
  induction s generalizing s' with
  | nil =>
      cases s' with
      | nil => rfl
      | cons c' s' =>
          obtain ⟨plain, -⟩ | ⟨x, escaped, -⟩ := escapeChar_cases c'
          · simp [plain] at same
          · simp [escaped] at same
  | cons c s ih =>
      cases s' with
      | nil =>
          obtain ⟨plain, -⟩ | ⟨x, escaped, -⟩ := escapeChar_cases c
          · simp [plain] at same
          · simp [escaped] at same
      | cons c' s' =>
          rw [List.flatMap_cons, List.flatMap_cons] at same
          obtain ⟨rfl, rests⟩ := escapeChar_append_inj same
          rw [ih rests]

def listRow (urs : String) : String × String := saveListdbData (quoteSqlStr urs)

/-- Different accounts have different rows. -/
theorem listRow_inj {urs urs' : String} (same : listRow urs = listRow urs') : urs = urs' := by
  have text := congrArg (fun target => target.2.toList) same
  simp only [listRow, saveListdbData, quoteSqlStr, String.toList_append, List.append_assoc,
    String.toList_join, List.flatMap_map] at text
  have inner := List.append_cancel_left (List.append_cancel_left text)
  exact String.toList_inj.mp (escape_inj (List.append_cancel_right inner))

end Targets

section Slots
variable {Md5 : Type}

/-- What the cache and the database have of one account. -/
def ursSlot (urs : String) (w : World Md5) : Slot Bytes Md5 where
  held := (w.cache.cacheUrs.lookup urs).map fun d => (d.bytes, d.hsave)
  digest := w.cache.cacheUrsMd5.lookup urs
  row := w.rows (listRow urs)

theorem ursSlot_congr {urs : String} {w w' : World Md5}
    (held : w'.cache.cacheUrs.lookup urs = w.cache.cacheUrs.lookup urs)
    (digest : w'.cache.cacheUrsMd5.lookup urs = w.cache.cacheUrsMd5.lookup urs)
    (row : w'.rows (listRow urs) = w.rows (listRow urs)) : ursSlot urs w' = ursSlot urs w := by
  simp only [ursSlot, held, digest, row]

theorem ursSlot_held_none {urs : String} {w : World Md5} :
    (ursSlot urs w).held = none ↔ urs ∉ w.cache.cacheUrs.keys :=
  Option.map_eq_none_iff.trans AList.lookup_eq_none

namespace Dbcache
variable (c : Dbcache Md5) (urs : String)

theorem lookup_delCacheUrs (other : String) :
    (c.delCacheUrs (.string urs)).cacheUrs.lookup other =
      if other = urs then none else c.cacheUrs.lookup other := by
  by_cases same : other = urs
  · rw [same, if_pos rfl]
    exact Cache.lookup_del
  · rw [if_neg same]
    simp only [delCacheUrs, Cache.del]
    cases c.cacheUrs.lookup urs with
    | none => rfl
    | some d => exact AList.lookup_erase_ne same

theorem lookup_setSaveCacheUrs (isSave : Bool) (other : String) :
    (c.setSaveCacheUrs (.string urs) isSave).cacheUrs.lookup other =
      if other = urs then (c.cacheUrs.lookup urs).map fun d => { d with hsave := isSave }
      else c.cacheUrs.lookup other := by
  simp only [setSaveCacheUrs, Cache.setSave]
  cases held : c.cacheUrs.lookup urs with
  | none =>
      by_cases same : other = urs
      · rw [same, if_pos rfl]
        exact held
      · rw [if_neg same]
  | some d =>
      by_cases same : other = urs
      · rw [same, if_pos rfl]
        exact AList.lookup_insert _
      · rw [if_neg same]
        exact AList.lookup_insert_ne same

/-- The cache behind a save: the entry is evicted, or kept as saved. -/
def settle (isdelCache : Bool) : Dbcache Md5 :=
  if isdelCache then c.delCacheUrs (.string urs) else c.setSaveCacheUrs (.string urs) true

theorem settle_md5 (isdelCache : Bool) :
    (c.settle urs isdelCache).cacheUrsMd5 = c.cacheUrsMd5 := by
  cases isdelCache with
  | true | false => rfl

theorem lookup_settle_ne (isdelCache : Bool) {other : String} (ne : other ≠ urs) :
    (c.settle urs isdelCache).cacheUrs.lookup other = c.cacheUrs.lookup other := by
  cases isdelCache with
  | true => exact (c.lookup_delCacheUrs urs other).trans (if_neg ne)
  | false => exact (c.lookup_setSaveCacheUrs urs true other).trans (if_neg ne)

theorem lookup_settle (isdelCache : Bool) {d : Entry} (held : c.cacheUrs.lookup urs = some d) :
    (c.settle urs isdelCache).cacheUrs.lookup urs =
      if isdelCache then none else some { d with hsave := true } := by
  cases isdelCache with
  | true => exact (c.lookup_delCacheUrs urs urs).trans (if_pos rfl)
  | false =>
      refine ((c.lookup_setSaveCacheUrs urs true urs).trans (if_pos rfl)).trans ?_
      rw [held]
      rfl

end Dbcache

variable [DecidableEq Md5] {env : Env Md5}

/-- The database takes every update. -/
def AcceptsAll (env : Env Md5) : Prop :=
  ∀ n st, (env.reply n st).accepted = true ∧ (env.reply n st).effective = true

/-- An update that is acknowledged, takes effect, and marks what is kept. -/
def acceptedUpdate : Update := ⟨true, true, true⟩

/-- What a save of an account that is cached does to the world. -/
theorem csListSetdata_cases (accepts : AcceptsAll env) (urs : String) (isdelCache : Bool)
    (w : World Md5) {d : Entry} (held : w.cache.cacheUrs.lookup urs = some d) :
    let w' := (csSetdata env (csListSetdata (.string urs)) isdelCache w).2
    (d.hsave = true ∧ w'.cache = (if isdelCache then w.cache.delCacheUrs (.string urs) else w.cache)
        ∧ w'.rows = w.rows) ∨
      (d.hsave = false ∧ w.cache.cacheUrsMd5.lookup urs = some (env.sumhexa d.bytes) ∧
        w'.cache = w.cache.settle urs isdelCache ∧ w'.rows = w.rows) ∨
      (d.hsave = false ∧ w.cache.cacheUrsMd5.lookup urs ≠ some (env.sumhexa d.bytes) ∧
        w'.cache = (w.cache.settle urs isdelCache).refresUrsMd5 (.string urs) (env.sumhexa d.bytes)
        ∧ w'.rows = Function.update w.rows (listRow urs) (some d.bytes)) := by
  intro w'
  have isSave : (csListSetdata (.string urs) : Saver Md5).isSave w.cache = d.hsave := by
    simp only [csListSetdata, Dbcache.isSaveCacheUrs, Cache.isSave, Table.index, held]
  cases saved : d.hsave with
  | true =>
      have result := csSetdata_saved env (csListSetdata (.string urs)) isdelCache held
        (isSave.trans saved)
      refine .inl ⟨rfl, ?_⟩
      simp only [w', result]
      cases isdelCache with
      | true | false => exact ⟨rfl, rfl⟩
  | false =>
      by_cases same : w.cache.cacheUrsMd5.lookup urs = some (env.sumhexa d.bytes)
      · obtain ⟨log, result⟩ := csSetdata_same env (csListSetdata (.string urs)) isdelCache held
          (isSave.trans saved) same
        refine .inr (.inl ⟨rfl, same, ?_⟩)
        simp only [w', result]
        exact ⟨rfl, trivial⟩
      · obtain ⟨log, result⟩ := csSetdata_accepted env (csListSetdata (.string urs)) isdelCache
          held (isSave.trans saved) same (accepts _ _).1
        refine .inr (.inr ⟨rfl, same, ?_⟩)
        simp only [w', result, World.send, (accepts _ _).2, if_true]
        exact ⟨rfl, rfl⟩

/-- A save leaves the slots of the other accounts alone. -/
theorem ursSlot_save_ne (accepts : AcceptsAll env) {urs other : String} (ne : other ≠ urs)
    (isdelCache : Bool) (w : World Md5) :
    ursSlot other (csSetdata env (csListSetdata (.string urs)) isdelCache w).2 =
      ursSlot other w := by
  cases held : w.cache.cacheUrs.lookup urs with
  | none =>
      rw [csSetdata_absent env (csListSetdata (.string urs)) isdelCache held]
      rfl
  | some d =>
      have kept := w.cache.lookup_settle_ne urs isdelCache ne
      have md5 := w.cache.settle_md5 urs isdelCache
      obtain ⟨-, cache, rows⟩ | ⟨-, -, cache, rows⟩ | ⟨-, -, cache, rows⟩ :=
        csListSetdata_cases accepts urs isdelCache w held
      · refine ursSlot_congr ?_ ?_ (by rw [rows])
        · rw [cache]
          cases isdelCache with
          | true => exact (w.cache.lookup_delCacheUrs urs other).trans (if_neg ne)
          | false => rfl
        · rw [cache]
          cases isdelCache with
          | true | false => rfl
      · refine ursSlot_congr ?_ ?_ (by rw [rows])
        · rw [cache, kept]
        · rw [cache, md5]
      · refine ursSlot_congr ?_ ?_ ?_
        · rw [cache]
          exact kept
        · rw [cache]
          exact (AList.lookup_insert_ne ne).trans (by rw [md5])
        · rw [rows, Function.update_of_ne]
          exact fun same => ne (listRow_inj same)

/-- On its own slot a save is that of a write-back cache. -/
theorem ursSlot_save (accepts : AcceptsAll env) (urs : String) (isdelCache : Bool)
    (w : World Md5) :
    ursSlot urs (csSetdata env (csListSetdata (.string urs)) isdelCache w).2 =
      (ursSlot urs w).save env.sumhexa isdelCache acceptedUpdate := by
  cases held : w.cache.cacheUrs.lookup urs with
  | none =>
      rw [csSetdata_absent env (csListSetdata (.string urs)) isdelCache held, Slot.save_none]
      · rfl
      · simp only [ursSlot, held, Option.map_none]
  | some d =>
      have slotHeld : (ursSlot urs w).held = some (d.bytes, d.hsave) := by
        simp only [ursSlot, held, Option.map_some]
      have settled := w.cache.lookup_settle urs isdelCache held
      have md5 := w.cache.settle_md5 urs isdelCache
      obtain ⟨saved, cache, rows⟩ | ⟨saved, same, cache, rows⟩ | ⟨saved, differs, cache, rows⟩ :=
        csListSetdata_cases accepts urs isdelCache w held
      · rw [saved] at slotHeld
        rw [Slot.save_saved slotHeld]
        simp only [ursSlot, cache, rows]
        cases isdelCache with
        | true =>
            simp only [if_true, w.cache.lookup_delCacheUrs urs urs, Option.map_none]
            rfl
        | false => rfl
      · rw [saved] at slotHeld
        rw [Slot.save_same slotHeld same]
        simp only [ursSlot, cache, rows, settled, md5]
        cases isdelCache with
        | true | false => rfl
      · rw [saved] at slotHeld
        rw [Slot.save_ack slotHeld differs rfl]
        have digest : ((w.cache.settle urs isdelCache).refresUrsMd5 (.string urs)
            (env.sumhexa d.bytes)).cacheUrsMd5.lookup urs = some (env.sumhexa d.bytes) :=
          AList.lookup_insert _
        have lookup : ((w.cache.settle urs isdelCache).refresUrsMd5 (.string urs)
            (env.sumhexa d.bytes)).cacheUrs.lookup urs = _ := settled
        simp only [ursSlot, cache, rows, Function.update_self, digest, lookup]
        cases isdelCache with
        | true | false => rfl

theorem realListSetdataPtrq_valid (env : Env Md5) {w : World Md5} (valid : w.invalid = false)
    (urs : String) (isdelCache : Bool) :
    (realListSetdataPtrq env urs isdelCache w).invalid = false ∧
      ∀ other, ursSlot other (realListSetdataPtrq env urs isdelCache w) =
        ursSlot other (csSetdata env (csListSetdata (.string urs)) isdelCache
          { w with req := w.req.enter.2 }).2 := by
  rw [realListSetdataPtrq, bracket_valid valid]
  refine ⟨?_, fun _ => rfl⟩
  exact (csSetdata_frame env (csListSetdata (.string urs)) isdelCache _).2.1.trans valid

end Slots

section Flush
variable {Md5 : Type} [DecidableEq Md5] (env : Env Md5)

/-- Every key is saved; `dret` has those to be evicted. -/
def flushUrs (dret : List String) (w : World Md5) (order : List String) : World Md5 :=
  order.foldl (fun w urs => realListSetdataPtrq env urs (urs ∈ dret) w) w

variable {env}

theorem ursSlot_flush (accepts : AcceptsAll env) (dret order : List String) (nodup : order.Nodup)
    (w : World Md5) (valid : w.invalid = false) (urs : String) :
    ursSlot urs (flushUrs env dret w order) =
      if urs ∈ order then (ursSlot urs w).save env.sumhexa (urs ∈ dret) acceptedUpdate
      else ursSlot urs w := by
  induction order generalizing w with
  | nil => rfl
  | cons first order ih =>
      obtain ⟨notMem, nodup⟩ := List.nodup_cons.mp nodup
      obtain ⟨valid', slots⟩ := realListSetdataPtrq_valid env valid first (first ∈ dret)
      change ursSlot urs
        (flushUrs env dret (realListSetdataPtrq env first (first ∈ dret) w) order) = _
      rw [ih nodup _ valid', slots]
      by_cases same : urs = first
      · subst same
        rw [if_neg notMem, if_pos List.mem_cons_self, ursSlot_save accepts]
        rfl
      · rw [ursSlot_save_ne accepts same]
        simp only [List.mem_cons, same, false_or]
        rfl

/-- The row has what is marked as saved or has the recorded digest. -/
def Known (env : Env Md5) (w : World Md5) : Prop :=
  ∀ urs d, w.cache.cacheUrs.lookup urs = some d →
    d.hsave = true ∨ w.cache.cacheUrsMd5.lookup urs = some (env.sumhexa d.bytes) →
    w.rows (listRow urs) = some d.bytes

/-- What a flush leaves of the cache and of the evicted entries. -/
structure Flushed (databaseCachecnt : Nat) (w w' : World Md5) : Prop where
  remaining : w'.cache.cacheUrs.keys.length =
    min w.cache.cacheUrs.keys.length databaseCachecnt
  among : w'.cache.cacheUrs.keys ⊆ w.cache.cacheUrs.keys
  saved : ∀ urs d, w'.cache.cacheUrs.lookup urs = some d → d.hsave = true
  evicted : ∀ urs d, w.cache.cacheUrs.lookup urs = some d →
    w'.cache.cacheUrs.lookup urs = none → w'.rows (listRow urs) = some d.bytes

theorem mem_take_iff {α : Type} {l : List α} (nodup : l.Nodup) (n : Nat) (x : α) :
    x ∈ l.take n ↔ x ∈ l ∧ x ∉ l.drop n := by
  have disjoint := List.disjoint_take_drop nodup (Nat.le_refl n)
  constructor
  · intro mem
    exact ⟨List.mem_of_mem_take mem, disjoint mem⟩
  · rintro ⟨mem, notMem⟩
    rw [← List.take_append_drop n l, List.mem_append] at mem
    exact mem.resolve_right notMem

/-- What is left of an entry that was cached. -/
theorem flush_cached (accepts : AcceptsAll env) (dret : List String) {order : List String}
    (nodup : order.Nodup) {w : World Md5} (valid : w.invalid = false) {urs : String} {d : Entry}
    (held : w.cache.cacheUrs.lookup urs = some d) (mem : urs ∈ order)
    (known : d.hsave = true ∨ w.cache.cacheUrsMd5.lookup urs = some (env.sumhexa d.bytes) →
      w.rows (listRow urs) = some d.bytes) :
    (ursSlot urs (flushUrs env dret w order)).held =
        (if urs ∈ dret then none else some (d.bytes, true)) ∧
      (ursSlot urs (flushUrs env dret w order)).row = some d.bytes := by
  have slot := ursSlot_flush accepts dret order nodup w valid urs
  rw [if_pos mem] at slot
  have slotHeld : (ursSlot urs w).held = some (d.bytes, d.hsave) := by
    simp only [ursSlot, held, Option.map_some]
  have result : ((ursSlot urs w).save env.sumhexa (urs ∈ dret) acceptedUpdate).held =
        (if decide (urs ∈ dret) = true then none else some (d.bytes, true)) ∧
      ((ursSlot urs w).save env.sumhexa (urs ∈ dret) acceptedUpdate).row = some d.bytes :=
    Slot.save_done slotHeld known rfl rfl rfl
  rw [← slot] at result
  simpa only [decide_eq_true_eq] using result

/-- Nothing comes into the cache. -/
theorem flush_absent (accepts : AcceptsAll env) {dret order : List String} (nodup : order.Nodup)
    {w : World Md5} (valid : w.invalid = false) {urs : String}
    (absent : w.cache.cacheUrs.lookup urs = none) (notMem : urs ∉ order) :
    (ursSlot urs (flushUrs env dret w order)).held = none := by
  rw [ursSlot_flush accepts dret order nodup w valid urs, if_neg notMem]
  simp only [ursSlot, absent, Option.map_none]

/-- The snapshot evicts what it counts past the bound. -/
theorem mem_keys_flush (accepts : AcceptsAll env) {w : World Md5} (valid : w.invalid = false)
    (known : Known env w)
    (databaseCachecnt : Nat) {order : List String} (all : order.Perm w.cache.cacheUrs.keys)
    (urs : String) :
    urs ∈ (flushUrs env (w.cache.cacheUrs.keys.drop databaseCachecnt) w order).cache.cacheUrs.keys ↔
      urs ∈ w.cache.cacheUrs.keys.take databaseCachecnt := by
  have nodup : order.Nodup := all.nodup_iff.mpr w.cache.cacheUrs.keys_nodup
  rw [mem_take_iff w.cache.cacheUrs.keys_nodup, ← not_iff_not, ← ursSlot_held_none]
  cases held : w.cache.cacheUrs.lookup urs with
  | none =>
      have absent := AList.lookup_eq_none.mp held
      rw [flush_absent accepts nodup valid held fun mem => absent (all.mem_iff.mp mem)]
      exact iff_of_true rfl fun present => absent present.1
  | some d =>
      have present : urs ∈ w.cache.cacheUrs.keys :=
        AList.lookup_isSome.mp (Option.isSome_iff_exists.mpr ⟨d, held⟩)
      rw [(flush_cached accepts _ nodup valid held (all.mem_iff.mpr present) (known urs d held)).1]
      split
      · rename_i evicted
        exact iff_of_true rfl fun kept => kept.2 evicted
      · rename_i kept
        exact iff_of_false nofun fun gone => gone ⟨present, kept⟩

/-- For every content of the cache and every order of its saves. -/
theorem flush_bounds (accepts : AcceptsAll env) {w : World Md5} (valid : w.invalid = false)
    (known : Known env w)
    (databaseCachecnt : Nat) {order : List String}
    (all : order.Perm (w.cache.getAllCacheUrs databaseCachecnt).1) :
    Flushed databaseCachecnt w
      (flushUrs env (w.cache.getAllCacheUrs databaseCachecnt).2.1 w order) := by
  change Flushed databaseCachecnt w
    (flushUrs env (w.cache.cacheUrs.keys.drop databaseCachecnt) w order)
  have nodup : order.Nodup := all.nodup_iff.mpr w.cache.cacheUrs.keys_nodup
  have mem := mem_keys_flush accepts valid known databaseCachecnt all
  have left := fun urs d (held : w.cache.cacheUrs.lookup urs = some d) =>
    flush_cached accepts (w.cache.cacheUrs.keys.drop databaseCachecnt) nodup valid held
      (all.mem_iff.mpr (AList.lookup_isSome.mp (Option.isSome_iff_exists.mpr ⟨d, held⟩)))
      (known urs d held)
  refine ⟨?_, ?_, ?_, ?_⟩
  · have keys : List.Perm _ (w.cache.cacheUrs.keys.take databaseCachecnt) :=
      (List.perm_ext_iff_of_nodup (AList.keys_nodup _)
        (w.cache.cacheUrs.keys_nodup.sublist (List.take_sublist _ _))).mpr mem
    rw [keys.length_eq, List.length_take, Nat.min_comm]
  · intro urs present
    exact List.mem_of_mem_take ((mem urs).mp present)
  · intro urs d held
    have present := (mem urs).mp (AList.lookup_isSome.mp (Option.isSome_iff_exists.mpr ⟨d, held⟩))
    obtain ⟨old, oldHeld⟩ := Option.isSome_iff_exists.mp
      (AList.lookup_isSome.mpr (List.mem_of_mem_take present))
    have kept := (left urs old oldHeld).1
    rw [if_neg ((mem_take_iff w.cache.cacheUrs.keys_nodup _ _).mp present).2] at kept
    simp only [ursSlot, held, Option.map_some, Option.some.injEq, Prod.mk.injEq] at kept
    exact kept.2
  · intro urs d held _
    exact (left urs d held).2

/-- The service with two accounts cached and not yet saved. -/
def twoAccounts : World Bytes :=
  (World.start fun _ => none).mapCache fun c =>
    (c.addCacheUrs "u1" ⟨0, [7]⟩ 1 1).addCacheUrs "u2" ⟨1, [8]⟩ 1 1

/-- One of the two stays, whichever is saved first. -/
theorem flush_bounds_twoAccounts :
    Flushed 1 twoAccounts
      (flushUrs ⟨id, fun _ _ => .done⟩ (twoAccounts.cache.getAllCacheUrs 1).2.1 twoAccounts
        ["u1", "u2"]) := by
  refine flush_bounds (fun _ _ => ⟨rfl, rfl⟩) rfl ?_ 1 (by decide)
  intro urs d held saved
  have unsaved : d.hsave = false := by
    have mem := AList.mem_lookup_iff.mp held
    change (⟨urs, d⟩ : Sigma fun _ => Entry) ∈
      [⟨"u2", ⟨⟨1, [8]⟩, 1, 1, none, false⟩⟩, ⟨"u1", ⟨⟨0, [7]⟩, 1, 1, none, false⟩⟩] at mem
    simp only [List.mem_cons, List.not_mem_nil, or_false, Sigma.mk.injEq, heq_eq_eq] at mem
    obtain ⟨-, rfl⟩ | ⟨-, rfl⟩ := mem
    · rfl
    · rfl
  rw [unsaved] at saved
  exact absurd saved (by rintro (flag | digest) <;> contradiction)

end Flush

end Qiuqiu.Database
