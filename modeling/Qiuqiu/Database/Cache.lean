import Mathlib.Data.List.AList

/-!
The write-back cache of service/databasecell/dbcache.lua: three tables of
buffers waiting to be saved, and the digests of the data saved last. The urs
and the mod tables have one level, the uid table has an inner table for each
uid. Lookups take a Lua value as key, since some callers pass nil or a boolean.
-/
namespace Qiuqiu.Database

abbrev Bytes := List UInt8

/-- A Lua value as far as it is used for a key here. -/
inductive Value where
  | nil
  | boolean (b : Bool)
  | string (s : String)
  deriving DecidableEq

def Value.tostring : Value → String
  | .nil => "nil"
  | .boolean true => "true"
  | .boolean false => "false"
  | .string s => s

/-- A light userdata with the block it points to. -/
structure Ptr where
  addr : Nat
  block : Bytes
  deriving DecidableEq

/-- `skynet.tostring(data_ptr, sz)`. -/
def Ptr.tostring (p : Ptr) (sz : Nat) : Bytes := p.block.take sz

structure Entry where
  dataPtr : Ptr
  sz : Nat
  quotedsz : Nat
  name : Option String := none
  hsave : Bool := false
  deriving DecidableEq

def Entry.bytes (d : Entry) : Bytes := d.dataPtr.tostring d.sz

abbrev Table (α : Type) := AList fun _ : String => α

/-- `t[key]`. No table here has a key that is not a string. -/
def Table.index {α : Type} (t : Table α) : Value → Option α
  | .string s => t.lookup s
  | _ => none

structure Dbcache (Md5 : Type) where
  cacheUrs : Table Entry
  cacheUid : Table (Table Entry)
  cacheMod : Table Entry
  cacheUrsMd5 : Table Md5
  cacheUidMd5 : Table (Table Md5)
  cacheModMd5 : Table Md5
  trash : List (Ptr × Nat)

def Dbcache.empty {Md5 : Type} : Dbcache Md5 := ⟨∅, ∅, ∅, ∅, ∅, ∅, []⟩

/-! The operations common to the three caches, on one table of entries. -/

namespace Cache

/-- The keys, those to be evicted when they are saved, and their number. -/
def getAll {α : Type} (t : Table α) (keep : Nat) : List String × List String × Nat :=
  (t.keys, t.keys.drop keep, t.keys.length)

def isSave (t : Table Entry) (key : Value) : Bool :=
  match t.index key with
  | some d => d.hsave
  | none => false

def setSave (t : Table Entry) (key : Value) (hsave : Bool) : Table Entry :=
  match key with
  | .string s =>
      match t.lookup s with
      | some d => t.insert s { d with hsave := hsave }
      | none => t
  | _ => t

/-- The table after adding, and the buffer the added one replaces. -/
def add (t : Table Entry) (key : String) (dataPtr : Ptr) (sz quotedsz : Nat)
    (name : Option String) : Table Entry × List (Ptr × Nat) :=
  match t.lookup key with
  | some d =>
      let d' := if dataPtr = d.dataPtr then d
        else { d with dataPtr := dataPtr, sz := sz, quotedsz := quotedsz, hsave := false }
      (t.insert key { d' with name := name.or d'.name },
        if dataPtr = d.dataPtr then [] else [(d.dataPtr, d.sz)])
  | none =>
      (t.insert key { dataPtr := dataPtr, sz := sz, quotedsz := quotedsz, name := name }, [])

def del (t : Table Entry) (key : Value) : Table Entry × List (Ptr × Nat) :=
  match key with
  | .string s =>
      match t.lookup s with
      | some d => (t.erase s, [(d.dataPtr, d.sz)])
      | none => (t, [])
  | _ => (t, [])

section Lookup
variable {t : Table Entry} {s key : String} {d : Entry}

theorem lookup_setSave (h : t.lookup s = some d) (hsave : Bool) :
    (setSave t (.string s) hsave).lookup s = some { d with hsave := hsave } := by
  simp only [setSave, h, AList.lookup_insert]

theorem lookup_add_absent (h : t.lookup s = none) (dataPtr : Ptr) (sz quotedsz : Nat)
    (name : Option String) :
    (add t s dataPtr sz quotedsz name).1.lookup s =
      some { dataPtr := dataPtr, sz := sz, quotedsz := quotedsz, name := name } := by
  simp only [add, h, AList.lookup_insert]

theorem lookup_del : (del t (.string s)).1.lookup s = none := by
  cases h : t.lookup s with
  | none => simp only [del, h]
  | some d => simp only [del, h, AList.lookup_erase]

end Lookup

end Cache

namespace Dbcache
variable {Md5 : Type} (c : Dbcache Md5)

def getAllCacheUrs (databaseCachecnt : Nat) : List String × List String × Nat :=
  Cache.getAll c.cacheUrs databaseCachecnt

def getCacheUrs (urs : Value) : Option Entry := c.cacheUrs.index urs

def isSaveCacheUrs (urs : Value) : Bool := Cache.isSave c.cacheUrs urs

def setSaveCacheUrs (urs : Value) (isSave : Bool) : Dbcache Md5 :=
  { c with cacheUrs := Cache.setSave c.cacheUrs urs isSave }

def addCacheUrs (urs : String) (dataPtr : Ptr) (sz quotedsz : Nat) : Dbcache Md5 :=
  let r := Cache.add c.cacheUrs urs dataPtr sz quotedsz none
  { c with cacheUrs := r.1, trash := c.trash ++ r.2 }

def delCacheUrs (urs : Value) : Dbcache Md5 :=
  let r := Cache.del c.cacheUrs urs
  { c with cacheUrs := r.1, trash := c.trash ++ r.2 }

def getAllCacheUid (databaseCachecnt : Nat) : List String × List String × Nat :=
  Cache.getAll c.cacheUid databaseCachecnt

def getCacheUid (uid act : Value) : Option Entry :=
  (c.cacheUid.index uid).bind fun acts => acts.index act

def getCacheUidActList (uid : Value) : Option (List String) :=
  (c.cacheUid.index uid).map AList.keys

def isSaveCacheUid (uid act : Value) : Bool :=
  match c.cacheUid.index uid with
  | some acts => Cache.isSave acts act
  | none => false

def setSaveCacheUid (uid act : Value) (isSave : Bool) : Dbcache Md5 :=
  match uid with
  | .string s =>
      match c.cacheUid.lookup s with
      | some acts => { c with cacheUid := c.cacheUid.insert s (Cache.setSave acts act isSave) }
      | none => c
  | _ => c

def addCacheUid (uid act : String) (dataPtr : Ptr) (sz quotedsz : Nat)
    (name : Option String) : Dbcache Md5 :=
  let r := Cache.add ((c.cacheUid.lookup uid).getD ∅) act dataPtr sz quotedsz name
  { c with cacheUid := c.cacheUid.insert uid r.1, trash := c.trash ++ r.2 }

def delCacheUid (uid act : Value) : Dbcache Md5 :=
  match uid with
  | .string s =>
      match c.cacheUid.lookup s with
      | some acts =>
          if (acts.index act).isSome then
            let r := Cache.del acts act
            { c with
              cacheUid := if r.1.keys = [] then c.cacheUid.erase s else c.cacheUid.insert s r.1
              trash := c.trash ++ r.2 }
          else c
      | none => c
  | _ => c

/-- Every module is to be evicted when it is saved. -/
def getAllCacheMod : List String × List String × Nat :=
  Cache.getAll c.cacheMod 0

def getCacheMod (mod : Value) : Option Entry := c.cacheMod.index mod

def isSaveCacheMod (mod : Value) : Bool := Cache.isSave c.cacheMod mod

def setSaveCacheMod (mod : Value) (isSave : Bool) : Dbcache Md5 :=
  { c with cacheMod := Cache.setSave c.cacheMod mod isSave }

def addCacheMod (mod : String) (dataPtr : Ptr) (sz quotedsz : Nat) : Dbcache Md5 :=
  let r := Cache.add c.cacheMod mod dataPtr sz quotedsz none
  { c with cacheMod := r.1, trash := c.trash ++ r.2 }

def delCacheMod (mod : Value) : Dbcache Md5 :=
  let r := Cache.del c.cacheMod mod
  { c with cacheMod := r.1, trash := c.trash ++ r.2 }

def refresUrsMd5 (urs : Value) (md5 : Md5) : Dbcache Md5 :=
  match urs with
  | .string s => { c with cacheUrsMd5 := c.cacheUrsMd5.insert s md5 }
  | _ => c

def getUrsMd5 (urs : Value) : Option Md5 := c.cacheUrsMd5.index urs

def refresUidMd5 (uid act : Value) (md5 : Md5) : Dbcache Md5 :=
  match uid, act with
  | .string u, .string a =>
      let acts : Table Md5 := (c.cacheUidMd5.lookup u).getD ∅
      { c with cacheUidMd5 := c.cacheUidMd5.insert u (acts.insert a md5) }
  | _, _ => c

def getUidMd5 (uid act : Value) : Option Md5 :=
  (c.cacheUidMd5.index uid).bind fun acts => acts.index act

def refresModMd5 (mod : Value) (md5 : Md5) : Dbcache Md5 :=
  match mod with
  | .string s => { c with cacheModMd5 := c.cacheModMd5.insert s md5 }
  | _ => c

def getModMd5 (mod : Value) : Option Md5 := c.cacheModMd5.index mod

/-- Nothing is cached under a nil activity. -/
theorem getCacheUid_nil (uid : Value) : c.getCacheUid uid .nil = none := by
  simp only [getCacheUid]
  cases c.cacheUid.index uid with
  | none => rfl
  | some acts => rfl

/-! What the operations do to the entry and the digest of one module. -/

section Module
variable (mod : String)

@[simp]
theorem getCacheMod_delCacheMod :
    (c.delCacheMod (.string mod)).getCacheMod (.string mod) = none :=
  Cache.lookup_del

@[simp]
theorem getModMd5_delCacheMod :
    (c.delCacheMod (.string mod)).getModMd5 (.string mod) = c.getModMd5 (.string mod) := rfl

@[simp]
theorem getCacheMod_setSaveCacheMod {d : Entry} (h : c.getCacheMod (.string mod) = some d)
    (isSave : Bool) :
    (c.setSaveCacheMod (.string mod) isSave).getCacheMod (.string mod) =
      some { d with hsave := isSave } :=
  Cache.lookup_setSave h isSave

@[simp]
theorem getModMd5_setSaveCacheMod (isSave : Bool) :
    (c.setSaveCacheMod (.string mod) isSave).getModMd5 (.string mod) =
      c.getModMd5 (.string mod) := rfl

@[simp]
theorem getCacheMod_addCacheMod (h : c.getCacheMod (.string mod) = none) (dataPtr : Ptr)
    (sz quotedsz : Nat) :
    (c.addCacheMod mod dataPtr sz quotedsz).getCacheMod (.string mod) =
      some { dataPtr := dataPtr, sz := sz, quotedsz := quotedsz } :=
  Cache.lookup_add_absent h dataPtr sz quotedsz none

@[simp]
theorem getModMd5_addCacheMod (dataPtr : Ptr) (sz quotedsz : Nat) :
    (c.addCacheMod mod dataPtr sz quotedsz).getModMd5 (.string mod) =
      c.getModMd5 (.string mod) := rfl

@[simp]
theorem getCacheMod_refresModMd5 (md5 : Md5) :
    (c.refresModMd5 (.string mod) md5).getCacheMod (.string mod) =
      c.getCacheMod (.string mod) := rfl

@[simp]
theorem getModMd5_refresModMd5 (md5 : Md5) :
    (c.refresModMd5 (.string mod) md5).getModMd5 (.string mod) = some md5 :=
  AList.lookup_insert _

theorem setSaveCacheUid_mod (uid act : Value) (isSave : Bool) :
    (c.setSaveCacheUid uid act isSave).cacheMod = c.cacheMod ∧
      (c.setSaveCacheUid uid act isSave).cacheModMd5 = c.cacheModMd5 := by
  cases uid with
  | nil => exact ⟨rfl, rfl⟩
  | boolean b => exact ⟨rfl, rfl⟩
  | string s =>
      cases h : c.cacheUid.lookup s with
      | none => simp only [setSaveCacheUid, h, and_self]
      | some acts => simp only [setSaveCacheUid, h, and_self]

@[simp]
theorem getCacheMod_setSaveCacheUid (uid act : Value) (isSave : Bool) :
    (c.setSaveCacheUid uid act isSave).getCacheMod (.string mod) =
      c.getCacheMod (.string mod) := by
  simp only [getCacheMod, (c.setSaveCacheUid_mod uid act isSave).1]

theorem isSaveCacheMod_eq {d : Entry} (h : c.getCacheMod (.string mod) = some d) :
    c.isSaveCacheMod (.string mod) = d.hsave := by
  simp only [getCacheMod] at h
  simp only [isSaveCacheMod, Cache.isSave, h]

end Module

end Dbcache

end Qiuqiu.Database
