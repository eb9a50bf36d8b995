import Qiuqiu.Base.WriteBack
import Qiuqiu.Database.Save

/-!
Runs of the requests on one module. Seen from the module, every request is a
step of a write-back slot: the entry with its saved flag, the remembered
digest and the row of the module. Reads see the last write as long as the
database tells the truth; with lost replies, saving is safe exactly as long as
no data is passed over for its digest while a lost update is in the row.
-/
namespace Qiuqiu.Database
open WriteBack
variable {Md5 : Type} [DecidableEq Md5]

/-- The test of the periodic save on the answer to its update. -/
def Reply.accepted (r : Reply) : Bool := r.isOk && !r.badresult && r.affectedRows == some 1

def modRow (modname : String) : String × String := saveModdbData (quoteSqlStr modname)

def slot (modname : String) (w : World Md5) : Slot Bytes Md5 where
  held := (w.cache.getCacheMod (.string modname)).map fun d => (d.bytes, d.hsave)
  digest := w.cache.getModMd5 (.string modname)
  row := w.rows (modRow modname)

theorem append_ne_of_take {a b : List Char} (n : Nat) (h : a.take n ≠ b.take n)
    (ha : n ≤ a.length) (hb : n ≤ b.length) (x y : List Char) : a ++ x ≠ b ++ y := by
  intro eq
  have := congrArg (List.take n) eq
  rw [List.take_append_of_le_length ha, List.take_append_of_le_length hb] at this
  exact h this

/-- The immediate save names another column than the module's row has. -/
theorem immTarget_ne (modname : String) :
    ((saveModdbData (quoteSqlStr modname)).1, (saveListdbData (quoteSqlStr modname)).2) ≠
      modRow modname := by
  intro eq
  have back := congrArg (fun t => t.2.toList) eq
  simp only [modRow, saveModdbData, saveListdbData, String.toList_append,
    List.append_assoc] at back
  exact append_ne_of_take 9 (by decide) (by decide) (by decide) _ _ back

/-- A copy of the save body that works on the module's entry; `mark` is the
flag it leaves on an entry it keeps after an accepted update. -/
structure SavesModule (k : Saver Md5) (modname : String) (mark : Bool) : Prop where
  entry : ∀ c, k.entry c = c.getCacheMod (.string modname)
  isSave : ∀ c, k.isSave c = c.isSaveCacheMod (.string modname)
  del : ∀ c, k.del c = c.delCacheMod (.string modname)
  omd5 : ∀ c, k.omd5 c = c.getModMd5 (.string modname)
  setSave : ∀ c, k.setSave c = c.setSaveCacheMod (.string modname) true
  keeps : ∀ c d, c.getCacheMod (.string modname) = some d → d.hsave = false →
    (k.setSaveDone c).getCacheMod (.string modname) = some { d with hsave := mark }
  refresMd5 : ∀ md5 c, k.refresMd5 md5 c = c.refresModMd5 (.string modname) md5

omit [DecidableEq Md5] in
theorem csModSetdata_saves (modname : String) :
    SavesModule (csModSetdata modname : Saver Md5) modname false where
  entry := fun _ => rfl
  isSave := fun _ => rfl
  del := fun _ => rfl
  omd5 := fun _ => rfl
  setSave := fun _ => rfl
  keeps := by
    intro c d entry unsaved
    rw [← unsaved]
    exact (c.getCacheMod_setSaveCacheUid modname _ _ _).trans entry
  refresMd5 := fun _ _ => rfl

omit [DecidableEq Md5] in
theorem csModSetdataImm_saves (modname : String) :
    SavesModule (csModSetdataImm modname : Saver Md5) modname true where
  entry := fun _ => rfl
  isSave := fun _ => rfl
  del := fun _ => rfl
  omd5 := fun _ => rfl
  setSave := fun _ => rfl
  keeps := fun c _ entry _ => c.getCacheMod_setSaveCacheMod modname entry true
  refresMd5 := fun _ _ => rfl

section
variable {env : Env Md5} {k : Saver Md5} {modname : String} {mark : Bool} {w : World Md5}

/-- The update as the module's slot sees it. -/
def updateOf (k : Saver Md5) (modname : String) (mark : Bool) (r : Reply) : Update where
  ack := k.accepts r
  effect := r.effective && decide (k.target = modRow modname)
  mark := mark

omit [DecidableEq Md5] in
theorem row_send (mark : Bool) (r : Reply) (reply : env.reply = fun _ _ => r) (d : Entry) :
    (w.send env (k.statement d)).2.rows (modRow modname) =
      if (updateOf k modname mark r).effect then some d.bytes else w.rows (modRow modname) := by
  simp only [World.send, reply, updateOf, Saver.statement, Bool.and_eq_true, decide_eq_true_eq]
  by_cases effective : r.effective = true
  · by_cases target : k.target = modRow modname
    · rw [if_pos effective, if_pos ⟨effective, target⟩, target, Function.update_self]
    · have other : modRow modname ≠ k.target := fun h => target h.symm
      rw [if_pos effective, if_neg (fun h => target h.2), Function.update_of_ne other]
  · rw [if_neg effective, if_neg (fun h => effective h.1)]

theorem slot_csSetdata (saves : SavesModule k modname mark) (isdelCache : Bool) (r : Reply)
    (reply : env.reply = fun _ _ => r) :
    slot modname (csSetdata env k isdelCache w).2 =
      (slot modname w).save env.sumhexa isdelCache (updateOf k modname mark r) := by
  cases entry : w.cache.getCacheMod (.string modname) with
  | none =>
      have held : (slot modname w).held = none := by simp only [slot, entry, Option.map_none]
      rw [csSetdata_absent env k isdelCache ((saves.entry _).trans entry), Slot.save_none held]
      rfl
  | some d =>
      have entry' := (saves.entry w.cache).trans entry
      have flag := (saves.isSave w.cache).trans (w.cache.isSaveCacheMod_eq modname entry)
      cases hsave : d.hsave with
      | true =>
          have held : (slot modname w).held = some (d.bytes, true) := by
            simp only [slot, entry, Option.map_some, hsave]
          rw [csSetdata_saved env k isdelCache entry' (flag.trans hsave), Slot.save_saved held]
          cases isdelCache with
          | true => simp [slot, World.mapCache, saves.del]
          | false => rfl
      | false =>
          have held : (slot modname w).held = some (d.bytes, false) := by
            simp only [slot, entry, Option.map_some, hsave]
          have unsaved := flag.trans hsave
          by_cases same : w.cache.getModMd5 (.string modname) = some (env.sumhexa d.bytes)
          · obtain ⟨log, eq⟩ := csSetdata_same env k isdelCache entry' unsaved
              ((saves.omd5 _).trans same)
            rw [eq, Slot.save_same held same]
            cases isdelCache with
            | true => simp [slot, saves.del]
            | false => simp [slot, saves.setSave, entry, Entry.bytes]
          · have differs : k.omd5 w.cache ≠ some (env.sumhexa d.bytes) := by
              rw [saves.omd5]
              exact same
            cases accepts : k.accepts r with
            | true =>
                obtain ⟨log, eq⟩ := csSetdata_accepted env k isdelCache entry' unsaved differs
                  (by rw [reply]; exact accepts)
                rw [eq, Slot.save_ack held same accepts]
                cases isdelCache with
                | true => simp [slot, saves.del, saves.refresMd5, row_send mark r reply]
                | false =>
                    simp only [slot, Bool.false_eq_true, if_false, saves.refresMd5,
                      Dbcache.getCacheMod_refresModMd5, Dbcache.getModMd5_refresModMd5,
                      saves.keeps _ d entry hsave, Option.map_some, row_send mark r reply]
                    rfl
            | false =>
                obtain ⟨msg, log, eq⟩ := csSetdata_rejected env k isdelCache entry' unsaved
                  differs (by rw [reply]; exact accepts)
                rw [eq, Slot.save_unack held same accepts]
                simp only [slot, row_send mark r reply]
                rfl

end

/-! Runs on one module. The answers to its updates satisfy `admits`. -/

inductive Event (admits : Reply → Prop) where
  | set (dataPtr : Ptr) (sz quotedsz : Nat) (isimm : Bool) (reply : Subtype admits)
  | save (isdelCache : Bool) (reply : Subtype admits)
  | get (reply : SelectReply)

section
variable {admits : Reply → Prop} (sumhexa : Bytes → Md5) (modname : String)

/-- The world after a request. -/
def next (w : World Md5) : Event admits → World Md5
  | .set dataPtr sz quotedsz isimm r =>
      modSetdataPtrq ⟨sumhexa, fun _ _ => r.1⟩ modname dataPtr sz quotedsz isimm w
  | .save isdelCache r => realModSetdataPtrq ⟨sumhexa, fun _ _ => r.1⟩ modname isdelCache w
  | .get r => (modGetdata modname r w).2

def runEvents (w : World Md5) (events : List (Event admits)) : World Md5 :=
  events.foldl (next sumhexa modname) w

/-- The same request on the slot. -/
def slotNext (s : Slot Bytes Md5) : Event admits → Slot Bytes Md5
  | .set dataPtr sz _ isimm r =>
      let s := s.put (dataPtr.tostring sz)
      if isimm then
        s.save sumhexa false (updateOf (csModSetdataImm modname : Saver Md5) modname true r.1)
      else s
  | .save isdelCache r =>
      s.save sumhexa isdelCache (updateOf (csModSetdata modname : Saver Md5) modname false r.1)
  | .get _ => s

variable {sumhexa modname}

omit [DecidableEq Md5] in
theorem slot_addCacheMod (w : World Md5) (dataPtr : Ptr) (sz quotedsz : Nat) :
    slot modname (w.mapCache fun c =>
      (c.delCacheMod (.string modname)).addCacheMod modname dataPtr sz quotedsz) =
      (slot modname w).put (dataPtr.tostring sz) := by
  simp only [slot, World.mapCache, Slot.put,
    Dbcache.getCacheMod_addCacheMod _ _ (Dbcache.getCacheMod_delCacheMod _ _),
    Dbcache.getModMd5_addCacheMod, Dbcache.getModMd5_delCacheMod, Option.map_some]
  rfl

theorem csModCache_snd (env : Env Md5) (w : World Md5) (dataPtr : Ptr) (sz quotedsz : Nat)
    (isimm : Bool) :
    (csModCache env modname dataPtr sz quotedsz isimm w).2 =
      let w := w.mapCache fun c =>
        (c.delCacheMod (.string modname)).addCacheMod modname dataPtr sz quotedsz
      if isimm then (csSetdata env (csModSetdataImm modname) false w).2 else w := by
  cases isimm with
  | false => rfl
  | true =>
      simp only [csModCache, if_true]
      split
      · rfl
      · rfl

theorem next_slot (sumhexa : Bytes → Md5) (modname : String) {w : World Md5}
    (valid : w.invalid = false) (e : Event admits) :
    slot modname (next sumhexa modname w e) = slotNext sumhexa modname (slot modname w) e ∧
      (next sumhexa modname w e).invalid = false := by
  cases e with
  | set dataPtr sz quotedsz isimm r =>
      simp only [next, modSetdataPtrq, bracket_valid valid, slotNext, tryCall, csModCache_snd]
      cases isimm with
      | false => exact ⟨slot_addCacheMod _ dataPtr sz quotedsz, valid⟩
      | true =>
          constructor
          · refine (slot_csSetdata (csModSetdataImm_saves modname) false r.1 rfl).trans ?_
            rw [slot_addCacheMod]
            rfl
          · exact (csSetdata_frame _ _ _ _).2.1.trans valid
  | save isdelCache r =>
      simp only [next, realModSetdataPtrq, bracket_valid valid, slotNext]
      constructor
      · exact slot_csSetdata (csModSetdata_saves modname) isdelCache r.1 rfl
      · exact (csSetdata_frame _ _ _ _).2.1.trans valid
  | get r =>
      have same : (csModGetdata modname r { w with req := w.req.enter.2 }).2 =
          { w with req := w.req.enter.2 } := by
        simp only [csModGetdata]
        split
        · rfl
        · split
          · rfl
          · rfl
      simp only [next, modGetdata, bracket_valid valid, same]
      exact ⟨rfl, valid⟩

/-- What the module's requests start from when the service starts. -/
structure Untouched (modname : String) (w : World Md5) : Prop where
  valid : w.invalid = false
  entry : w.cache.getCacheMod (.string modname) = none
  digest : w.cache.getModMd5 (.string modname) = none

omit [DecidableEq Md5] in
theorem modGetdata_read {w : World Md5} (valid : w.invalid = false) (r : SelectReply)
    {data : Bytes} (h : (modGetdata modname r w).1 = some data) :
    (slot modname w).read = some data := by
  rw [modGetdata, bracket_valid valid] at h
  change (csModGetdata modname r { w with req := w.req.enter.2 }).1 = some data at h
  simp only [csModGetdata] at h
  cases entry : w.cache.getCacheMod (.string modname) with
  | some d =>
      rw [entry] at h
      simpa only [Slot.read, slot, entry, Option.map_some] using h
  | none =>
      rw [entry] at h
      simp only [Slot.read, slot, entry, Option.map_none]
      cases r with
      | rows => exact h
      | raised => cases h
      | badresult => cases h

/-- A failed update leaves the row unchanged, and an answer with `badresult`
has no affected row. -/
structure Honest (r : Reply) : Prop where
  effect : r.effective = r.accepted
  result : ¬ (r.badresult = true ∧ r.affectedRows = some 1)

/-- An acknowledged update took effect, and an answer with `badresult` has no
affected row. -/
structure Lossy (r : Reply) : Prop where
  effect : r.accepted = true → r.effective = true
  result : ¬ (r.badresult = true ∧ r.affectedRows = some 1)

theorem updateOf_imm (Md5 : Type) (modname : String) {r : Reply}
    (result : ¬ (r.badresult = true ∧ r.affectedRows = some 1)) :
    (updateOf (csModSetdataImm modname : Saver Md5) modname true r).ack = false ∧
      (updateOf (csModSetdataImm modname : Saver Md5) modname true r).effect = false := by
  constructor
  · cases h : (updateOf (csModSetdataImm modname : Saver Md5) modname true r).ack with
    | false => rfl
    | true =>
        simp only [updateOf, csModSetdataImm, Bool.and_eq_true, beq_iff_eq] at h
        exact absurd ⟨h.1.2, h.2⟩ result
  · simp only [updateOf, Bool.and_eq_false_imp, decide_eq_false_iff_not]
    intro _
    exact immTarget_ne modname

theorem updateOf_periodic (Md5 : Type) (modname : String) (r : Reply) :
    (updateOf (csModSetdata modname : Saver Md5) modname false r).ack = r.accepted ∧
      (updateOf (csModSetdata modname : Saver Md5) modname false r).effect = r.effective := by
  refine ⟨rfl, ?_⟩
  have target : (csModSetdata modname : Saver Md5).target = modRow modname := rfl
  simp only [updateOf, target, decide_true, Bool.and_true]

end

/-! Reads see the last write. -/

section
variable {sumhexa : Bytes → Md5} {modname : String}

/-- The data of the last set, or the row there was before. -/
def lastSet (row : Option Bytes) (events : List (Event Honest)) : Option Bytes :=
  events.foldl (fun last e => match e with
    | .set dataPtr sz _ _ _ => some (dataPtr.tostring sz)
    | _ => last) row

theorem slotNext_coherent (modname : String) (inj : Function.Injective sumhexa) {s : Slot Bytes Md5}
    (c : s.Coherent sumhexa) (e : Event Honest) :
    (slotNext sumhexa modname s e).Coherent sumhexa ∧
      (slotNext sumhexa modname s e).read = lastSet s.read [e] := by
  cases e with
  | set dataPtr sz quotedsz isimm r =>
      have put := Slot.put_coherent c (dataPtr.tostring sz)
      cases isimm with
      | false => exact ⟨put, rfl⟩
      | true =>
          obtain ⟨ack, effect⟩ := updateOf_imm Md5 modname r.2.result
          have exact_ := effect.trans ack.symm
          exact ⟨Slot.save_coherent inj put exact_, Slot.save_read inj put exact_⟩
  | save isdelCache r =>
      obtain ⟨ack, effect⟩ := updateOf_periodic Md5 modname r.1
      have exact_ := effect.trans (r.2.effect.trans ack.symm)
      exact ⟨Slot.save_coherent inj c exact_, Slot.save_read inj c exact_⟩
  | get r => exact ⟨c, rfl⟩

theorem runEvents_coherent (inj : Function.Injective sumhexa) (events : List (Event Honest)) :
    ∀ w : World Md5, w.invalid = false → (slot modname w).Coherent sumhexa →
      (runEvents sumhexa modname w events).invalid = false ∧
        (slot modname (runEvents sumhexa modname w events)).read =
          lastSet (slot modname w).read events := by
  induction events with
  | nil =>
      intro w valid _
      exact ⟨valid, rfl⟩
  | cons e events ih =>
      intro w valid c
      obtain ⟨view, valid'⟩ := next_slot sumhexa modname valid e
      obtain ⟨c', read⟩ := slotNext_coherent modname inj c e
      rw [← view] at c' read
      have rest := ih _ valid' c'
      rw [read] at rest
      exact rest

/-- Every successful `mod_getdata` returns the data of the last accepted
`mod_setdata_ptrq`, or the row there was at the start. -/
theorem modGetdata_last_set (inj : Function.Injective sumhexa) {w : World Md5}
    (start : Untouched modname w) (events : List (Event Honest)) (reply : SelectReply)
    {data : Bytes}
    (h : (modGetdata modname reply (runEvents sumhexa modname w events)).1 = some data) :
    lastSet (w.rows (modRow modname)) events = some data := by
  have held : (slot modname w).held = none := by
    simp only [slot, start.entry, Option.map_none]
  have coherent : (slot modname w).Coherent sumhexa := by
    refine ⟨fun b h => ?_, fun m h => ?_⟩
    · rw [held] at h
      cases h
    · rw [show (slot modname w).digest = none from start.digest] at h
      cases h
  obtain ⟨valid, read⟩ := runEvents_coherent inj events w start.valid coherent
  have first : (slot modname w).read = w.rows (modRow modname) := by
    simp only [Slot.read, held]
    rfl
  rw [← first, ← read]
  exact modGetdata_read valid reply h

omit [DecidableEq Md5] in
theorem start_untouched (modname : String) (rows : String × String → Option Bytes) :
    Untouched modname (World.start rows : World Md5) := ⟨rfl, rfl, rfl⟩

/-- An acknowledged update of one row. -/
def Reply.done : Reply := ⟨true, false, some 1, true, ""⟩

def honestDone : Subtype Honest := ⟨.done, rfl, by simp [Reply.done]⟩

/-- The value read back from the row after the entry was evicted. -/
theorem modGetdata_last_set_evicted :
    (modGetdata "m" .rows (runEvents id "m" (World.start fun _ => none : World Bytes)
        [.set ⟨0, [2]⟩ 1 1 false honestDone, .save true honestDone])).1 = some [2] ∧
      lastSet none [.set ⟨0, [2]⟩ 1 1 false honestDone, .save true honestDone] = some [2] :=
  ⟨rfl, modGetdata_last_set Function.injective_id (start_untouched "m" fun _ => none)
    [.set ⟨0, [2]⟩ 1 1 false honestDone, .save true honestDone] .rows rfl⟩

end

/-! Saving with lost replies. -/

section
variable (sumhexa : Bytes → Md5) (modname : String)

/-- The slot a save of this request works on, if there is one. -/
def savedSlot (w : World Md5) : Event Lossy → Option (Slot Bytes Md5)
  | .set dataPtr sz _ true _ => some ((slot modname w).put (dataPtr.tostring sz))
  | .save _ _ => some (slot modname w)
  | _ => none

/-- Whatever a save of this request evicts or marks as saved is in the row. -/
def SafeStep (w : World Md5) (e : Event Lossy) : Prop :=
  ∀ s, savedSlot modname w e = some s → s.Safe (slot modname (next sumhexa modname w e))

/-- A save of this request passes over its data for the remembered digest. -/
def PassesOver (w : World Md5) (e : Event Lossy) : Prop :=
  ∃ s, savedSlot modname w e = some s ∧ s.Same sumhexa

/-- Whether an update that took effect was answered as failed since the last
acknowledged one. -/
def lostNext (w : World Md5) (lost : Bool) : Event Lossy → Bool
  | .save _ r => (slot modname w).lostAfter sumhexa lost
      (updateOf (csModSetdata modname : Saver Md5) modname false r.1)
  | _ => lost

def AllSafe : World Md5 → List (Event Lossy) → Prop
  | _, [] => True
  | w, e :: events => SafeStep sumhexa modname w e ∧ AllSafe (next sumhexa modname w e) events

/-- No save passes over its data while a lost update is in the row. -/
def NeverStale : World Md5 → Bool → List (Event Lossy) → Prop
  | _, _, [] => True
  | w, lost, e :: events =>
      ¬ (lost = true ∧ PassesOver sumhexa modname w e) ∧
        NeverStale (next sumhexa modname w e) (lostNext sumhexa modname w lost e) events

variable {sumhexa modname}

theorem safeStep_iff (inj : Function.Injective sumhexa) {w : World Md5} {lost : Bool}
    (valid : w.invalid = false) (t : (slot modname w).Traced sumhexa lost) (e : Event Lossy) :
    (SafeStep sumhexa modname w e ↔ ¬ (lost = true ∧ PassesOver sumhexa modname w e)) ∧
      (¬ (lost = true ∧ PassesOver sumhexa modname w e) →
        (slot modname (next sumhexa modname w e)).Traced sumhexa
          (lostNext sumhexa modname w lost e)) := by
  have view := (next_slot sumhexa modname valid e).1
  have idle : savedSlot modname w e = none →
      (SafeStep sumhexa modname w e ↔ ¬ (lost = true ∧ PassesOver sumhexa modname w e)) := by
    intro none
    simp [SafeStep, PassesOver, none]
  have saves : ∀ s, savedSlot modname w e = some s →
      (s.Safe (slot modname (next sumhexa modname w e)) ↔ ¬ (lost = true ∧ s.Same sumhexa)) →
      (SafeStep sumhexa modname w e ↔ ¬ (lost = true ∧ PassesOver sumhexa modname w e)) := by
    intro s some_ iff
    simpa [SafeStep, PassesOver, some_] using iff
  cases e with
  | set dataPtr sz quotedsz isimm r =>
      have put := Slot.put_traced t (dataPtr.tostring sz)
      cases isimm with
      | false =>
          refine ⟨idle rfl, fun _ => ?_⟩
          rw [view]
          exact put
      | true =>
          obtain ⟨ack, effect⟩ := updateOf_imm Md5 modname r.2.result
          have acked : (updateOf (csModSetdataImm modname : Saver Md5) modname true r.1).ack =
              true → (updateOf (csModSetdataImm modname : Saver Md5) modname true r.1).effect =
              true := by
            intro h
            rw [ack] at h
            cases h
          refine ⟨saves _ rfl ?_, fun fine => ?_⟩
          · rw [view]
            exact Slot.save_safe_iff inj put acked
          · rw [view]
            have fine' : ¬ (lost = true ∧
                ((slot modname w).put (dataPtr.tostring sz)).Same sumhexa) :=
              fun h => fine ⟨h.1, _, rfl, h.2⟩
            have traced := Slot.save_traced false inj put acked fine'
            rw [Slot.lostAfter_idle ack effect] at traced
            exact traced
  | save isdelCache r =>
      obtain ⟨ack, effect⟩ := updateOf_periodic Md5 modname r.1
      have acked : (updateOf (csModSetdata modname : Saver Md5) modname false r.1).ack = true →
          (updateOf (csModSetdata modname : Saver Md5) modname false r.1).effect = true := by
        rw [ack, effect]
        exact r.2.effect
      refine ⟨saves _ rfl ?_, fun fine => ?_⟩
      · rw [view]
        exact Slot.save_safe_iff inj t acked
      · rw [view]
        exact Slot.save_traced isdelCache inj t acked (fun h => fine ⟨h.1, _, rfl, h.2⟩)
  | get r =>
      refine ⟨idle rfl, fun _ => ?_⟩
      rw [view]
      exact t

theorem allSafe_iff (inj : Function.Injective sumhexa) (events : List (Event Lossy)) :
    ∀ (w : World Md5) (lost : Bool), w.invalid = false →
      (slot modname w).Traced sumhexa lost →
      (AllSafe sumhexa modname w events ↔ NeverStale sumhexa modname w lost events) := by
  induction events with
  | nil =>
      intro w lost _ _
      exact Iff.rfl
  | cons e events ih =>
      intro w lost valid t
      obtain ⟨safe, traced⟩ := safeStep_iff inj valid t e
      have valid' := (next_slot sumhexa modname valid e).2
      constructor
      · intro ⟨now, later⟩
        have fine := safe.mp now
        exact ⟨fine, (ih _ _ valid' (traced fine)).mp later⟩
      · intro ⟨fine, later⟩
        exact ⟨safe.mpr fine, (ih _ _ valid' (traced fine)).mpr later⟩

/-- With replies that may be lost, everything that is evicted or marked saved
in a run is in the row exactly when no save passes over its data for the
remembered digest after an update took effect and was answered as failed, with
no acknowledged update since. -/
theorem eviction_safe_iff_never_stale (inj : Function.Injective sumhexa) {w : World Md5}
    (start : Untouched modname w) (events : List (Event Lossy)) :
    AllSafe sumhexa modname w events ↔ NeverStale sumhexa modname w false events := by
  refine allSafe_iff inj events w false start.valid ?_
  have held : (slot modname w).held = none := by
    simp only [slot, start.entry, Option.map_none]
  have digest : (slot modname w).digest = none := start.digest
  refine ⟨fun b h => ?_, fun _ m h => ?_, fun h => by cases h⟩
  · rw [held] at h
    cases h
  · rw [digest] at h
    cases h

def lossyDone : Subtype Lossy := ⟨.done, fun _ => rfl, by simp [Reply.done]⟩

/-- The update takes effect, and the connection is lost before its answer. -/
def lossyLost : Subtype Lossy := ⟨⟨false, false, none, true, "socket error"⟩, by
  simp [Reply.accepted], by simp⟩

theorem eviction_safe_retried :
    AllSafe id "m" (World.start fun _ => none : World Bytes)
      [.set ⟨0, [2]⟩ 1 1 false lossyDone, .save false lossyLost, .save true lossyDone] := by
  refine (eviction_safe_iff_never_stale Function.injective_id
    (start_untouched "m" fun _ => none) _).mpr ?_
  refine ⟨?_, ?_, ?_, trivial⟩
  · intro h
    cases h.1
  · intro h
    cases h.1
  · intro ⟨_, s, some_, b, held, digest⟩
    cases some_
    cases digest

/-- Data 1 is saved, the answer to saving data 2 is lost, and data 1 set again
is evicted while the row holds data 2. -/
theorem eviction_unsafe_lost_reply :
    ¬ AllSafe id "m" (World.start fun _ => none : World Bytes)
      [.set ⟨0, [1]⟩ 1 1 false lossyDone, .save true lossyDone,
        .set ⟨1, [2]⟩ 1 1 false lossyDone, .save true lossyLost,
        .set ⟨2, [1]⟩ 1 1 false lossyDone, .save true lossyDone] := by
  intro ⟨_, _, _, _, _, safe, _⟩
  have row := safe _ rfl [1] false rfl (.inl rfl)
  have two : some ([2] : Bytes) = some [1] := row
  cases two

end

end Qiuqiu.Database
