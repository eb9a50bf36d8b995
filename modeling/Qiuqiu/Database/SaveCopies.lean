import Qiuqiu.Database.ModuleRuns

/-!
Where the copies of the save body drift apart. The role copy looks its entry
up without the activity and so never finds one; the two module copies do the
same as long as neither sends an update.
-/
namespace Qiuqiu.Database
variable {Md5 : Type} [DecidableEq Md5]

section Role
variable {env : Env Md5} {uid actName : String} {isdelCache : Bool} {w : World Md5} {d : Entry}

/-- The entry `d` of the activity was saved by one update of its column, or by
none when its digest is the remembered one; it is then marked or evicted, and
no other entry has changed. -/
structure RoleSaved (env : Env Md5) (uid actName : String) (isdelCache : Bool) (d : Entry)
    (w w' : World Md5) : Prop where
  update : w'.issued = w.issued ++ [⟨saveRoledbActdata actName uid, d.bytes, d.quotedsz⟩] ∨
    w.cache.getUidMd5 (.string uid) (.string actName) = some (env.sumhexa d.bytes) ∧
      w'.issued = w.issued
  entry : w'.cache.getCacheUid (.string uid) (.string actName) =
    if isdelCache then none else some { d with hsave := true }
  others : ∀ uid' actName', (uid', actName') ≠ (uid, actName) →
    w'.cache.getCacheUid (.string uid') (.string actName') =
      w.cache.getCacheUid (.string uid') (.string actName')

theorem realRoleSetdataPtrq_cache :
    (realRoleSetdataPtrq env uid actName isdelCache w).cache = w.cache := by
  cases valid : w.invalid with
  | true => simp only [realRoleSetdataPtrq, bracket, valid, if_true]
  | false =>
      have absent : (csRoleSetactdata uid actName : Saver Md5).entry
          { w with req := w.req.enter.2 }.cache = none := w.cache.getCacheUid_nil (.string uid)
      simp only [realRoleSetdataPtrq, bracket_valid valid, tryCall,
        csSetdata_absent env _ isdelCache absent]
      rfl

/-- For every unsaved entry of an activity, `real_role_setdata_ptrq` does not
save it. -/
theorem realRoleSetdataPtrq_never_saves
    (entry : w.cache.getCacheUid (.string uid) (.string actName) = some d)
    (unsaved : d.hsave = false) :
    ¬ RoleSaved env uid actName isdelCache d w
      (realRoleSetdataPtrq env uid actName isdelCache w) := by
  intro saved
  have after := saved.entry
  rw [realRoleSetdataPtrq_cache, entry] at after
  cases isdelCache with
  | true => cases after
  | false =>
      have flag := congrArg Entry.hsave (Option.some.inj after)
      rw [unsaved] at flag
      cases flag

/-- The service with one unsaved activity of one role. -/
def oneActivity : World Bytes :=
  (World.start fun _ => none).mapCache fun c => c.addCacheUid "u1" "data" ⟨0, [7]⟩ 1 1 none

def acceptAll : Env Bytes := ⟨id, fun _ _ => .done⟩

theorem realRoleSetdataPtrq_never_saves_one :
    ¬ RoleSaved acceptAll "u1" "data" true ⟨⟨0, [7]⟩, 1, 1, none, false⟩ oneActivity
      (realRoleSetdataPtrq acceptAll "u1" "data" true oneActivity) :=
  realRoleSetdataPtrq_never_saves rfl rfl

/-- No update is sent and the entry stays as it was. -/
theorem realRoleSetdataPtrq_one_unsaved :
    (realRoleSetdataPtrq acceptAll "u1" "data" false oneActivity).issued = [] ∧
      ¬ RoleSaved acceptAll "u1" "data" false ⟨⟨0, [7]⟩, 1, 1, none, false⟩ oneActivity
        (realRoleSetdataPtrq acceptAll "u1" "data" false oneActivity) := by
  refine ⟨rfl, fun saved => ?_⟩
  have after := saved.entry
  rw [realRoleSetdataPtrq_cache] at after
  have flag : some false = some true := congrArg (Option.map Entry.hsave) after
  cases flag

end Role

section Module
variable {env : Env Md5} {modname : String} {isdelCache : Bool} {w : World Md5} {d : Entry}

def Result.IsRaised : Result → Prop
  | .raised _ => True
  | .returned _ => False

/-- The two copies send the same updates, leave the same entry and digest, and
both return or both raise. -/
structure CopiesAgree (env : Env Md5) (modname : String) (isdelCache : Bool) (w : World Md5) :
    Prop where
  updates : (csSetdata env (csModSetdataImm modname) isdelCache w).2.issued =
    (csSetdata env (csModSetdata modname) isdelCache w).2.issued
  entry : (csSetdata env (csModSetdataImm modname) isdelCache w).2.cache.getCacheMod
    (.string modname) =
      (csSetdata env (csModSetdata modname) isdelCache w).2.cache.getCacheMod (.string modname)
  digest : (csSetdata env (csModSetdataImm modname) isdelCache w).2.cache.getModMd5
    (.string modname) =
      (csSetdata env (csModSetdata modname) isdelCache w).2.cache.getModMd5 (.string modname)
  raises : (csSetdata env (csModSetdataImm modname) isdelCache w).1.IsRaised ↔
    (csSetdata env (csModSetdata modname) isdelCache w).1.IsRaised

/-- There is no entry, or it is marked saved, or its digest is the remembered
one: no update is due. -/
def NothingToSend (env : Env Md5) (modname : String) (w : World Md5) : Prop :=
  w.cache.getCacheMod (.string modname) = none ∨
    w.cache.isSaveCacheMod (.string modname) = true ∨
    ∃ d, w.cache.getCacheMod (.string modname) = some d ∧
      w.cache.getModMd5 (.string modname) = some (env.sumhexa d.bytes)

/-- The update a save sends when one is due. -/
theorem csSetdata_issued (k : Saver Md5) (entry : k.entry w.cache = some d)
    (unsaved : k.isSave w.cache = false)
    (differs : k.omd5 w.cache ≠ some (env.sumhexa d.bytes)) :
    (csSetdata env k isdelCache w).2.issued = w.issued ++ [k.statement d] := by
  cases accepted : k.accepts (env.reply w.issued.length (k.statement d)) with
  | true =>
      obtain ⟨log, eq⟩ := csSetdata_accepted env k isdelCache entry unsaved differs accepted
      rw [eq]
      rfl
  | false =>
      obtain ⟨msg, log, eq⟩ := csSetdata_rejected env k isdelCache entry unsaved differs accepted
      rw [eq]
      rfl

theorem copies_agree_of_nothing (h : NothingToSend env modname w) :
    CopiesAgree env modname isdelCache w := by
  cases entry : w.cache.getCacheMod (.string modname) with
  | none =>
      have imm := csSetdata_absent env (csModSetdataImm modname) isdelCache entry
      have periodic := csSetdata_absent env (csModSetdata modname) isdelCache entry
      constructor <;> rw [imm, periodic] <;> rfl
  | some d =>
      cases saved : w.cache.isSaveCacheMod (.string modname) with
      | true =>
          have imm := csSetdata_saved env (csModSetdataImm modname) isdelCache entry saved
          have periodic := csSetdata_saved env (csModSetdata modname) isdelCache entry saved
          constructor <;> rw [imm, periodic] <;> rfl
      | false =>
          have same : w.cache.getModMd5 (.string modname) = some (env.sumhexa d.bytes) := by
            cases h with
            | inl none =>
                rw [entry] at none
                cases none
            | inr h =>
                cases h with
                | inl marked =>
                    rw [saved] at marked
                    cases marked
                | inr h =>
                    obtain ⟨d', entry', same⟩ := h
                    rw [entry] at entry'
                    cases entry'
                    exact same
          obtain ⟨log, imm⟩ :=
            csSetdata_same env (csModSetdataImm modname) isdelCache entry saved same
          obtain ⟨log', periodic⟩ :=
            csSetdata_same env (csModSetdata modname) isdelCache entry saved same
          constructor <;> rw [imm, periodic] <;> rfl

theorem issued_ne_of_due (entry : w.cache.getCacheMod (.string modname) = some d)
    (unsaved : w.cache.isSaveCacheMod (.string modname) = false)
    (differs : w.cache.getModMd5 (.string modname) ≠ some (env.sumhexa d.bytes)) :
    (csSetdata env (csModSetdataImm modname) isdelCache w).2.issued ≠
      (csSetdata env (csModSetdata modname) isdelCache w).2.issued := by
  rw [csSetdata_issued (csModSetdataImm modname) entry unsaved differs,
    csSetdata_issued (csModSetdata modname) entry unsaved differs]
  intro eq
  have last := List.append_cancel_left eq
  simp only [List.cons.injEq, and_true] at last
  exact immTarget_ne modname (congrArg Statement.target last)

/-- The immediate and the periodic save of a module agree exactly when no
update is due. -/
theorem copiesAgree_iff_nothingToSend :
    CopiesAgree env modname isdelCache w ↔ NothingToSend env modname w := by
  constructor
  · intro agree
    cases entry : w.cache.getCacheMod (.string modname) with
    | none => exact .inl entry
    | some d =>
        cases saved : w.cache.isSaveCacheMod (.string modname) with
        | true => exact .inr (.inl saved)
        | false =>
            by_cases same : w.cache.getModMd5 (.string modname) = some (env.sumhexa d.bytes)
            · exact .inr (.inr ⟨d, entry, same⟩)
            · exact absurd agree.updates (issued_ne_of_due entry saved same)
  · exact copies_agree_of_nothing

/-- The service with one module cached and not yet saved. -/
def oneModule : World Bytes :=
  (World.start fun _ => none).mapCache fun c => c.addCacheMod "m" ⟨0, [7]⟩ 1 1

/-- The immediate save names the column `acct_id`, the periodic one
`mod_name`, and only the periodic one takes the acknowledged update for one. -/
theorem copies_differ_oneModule :
    ¬ CopiesAgree acceptAll "m" false oneModule ∧
      (csSetdata acceptAll (csModSetdataImm "m") false oneModule).1.IsRaised ∧
      ¬ (csSetdata acceptAll (csModSetdata "m") false oneModule).1.IsRaised := by
  refine ⟨fun agree => ?_, trivial, fun raised => raised⟩
  have differs : oneModule.cache.getModMd5 (.string "m") ≠ some [7] := by decide
  exact issued_ne_of_due rfl rfl differs agree.updates

end Module

end Qiuqiu.Database
