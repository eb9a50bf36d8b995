import Qiuqiu.Server.Handle

/-!
The storage of handles is a table from handles to contexts with a table from names to
handles. A new handle is one that no context has; there is none only when all are in use. It is
reserved until the caller has written it into the context, and leads to the context from then
on.
-/
namespace Qiuqiu.Server.Handle

/-- What the storage is for. -/
structure Registry (C : Type) where
  contexts : Nat → Option C
  reserved : Nat → Option C
  names : Bytes → Option Nat

namespace Registry
variable {C : Type}

/-- A call and its answer, with the tables behind it. -/
inductive Step (harbor : Nat) : Registry C → Event C × Output C → Registry C → Prop
  | register {r ctx handle} : r.contexts handle = none → r.reserved handle = none →
      handle / 2 ^ 24 = harbor → handle % 2 ^ 24 ≠ 0 →
      Step harbor r (.register ctx, .handle handle)
        { r with reserved := Function.update r.reserved handle (some ctx) }
  | write {r handle ctx} : r.reserved handle = some ctx →
      Step harbor r (.write handle, .written)
        { r with
          contexts := Function.update r.contexts handle (some ctx)
          reserved := Function.update r.reserved handle none }
  | aborted {r ctx} : (∀ i, 1 ≤ i → i < 2 ^ 24 →
      r.contexts (harbor * 2 ^ 24 + i) ≠ none ∨ r.reserved (harbor * 2 ^ 24 + i) ≠ none) →
      Step harbor r (.register ctx, .aborted) r
  | retire {r handle ctx} : r.contexts handle = some ctx →
      Step harbor r (.retire handle, .flag true)
        { r with
          contexts := Function.update r.contexts handle none
          names := fun name => if r.names name = some handle then none else r.names name }
  | absent {r handle} : r.contexts handle = none → Step harbor r (.retire handle, .flag false) r
  | grab {r handle} : Step harbor r (.grab handle, .context (r.contexts handle)) r
  | namehandle {r handle name} : r.names name = none →
      Step harbor r (.namehandle handle name, .flag true)
        { r with names := Function.update r.names name (some handle) }
  | taken {r handle name handle'} : r.names name = some handle' →
      Step harbor r (.namehandle handle name, .flag false) r
  | findname {r name} : Step harbor r (.findname name, .handle ((r.names name).getD 0)) r

/-- The tables behind a run, which begins with empty ones. -/
inductive Run (harbor : Nat) : List (Event C × Output C) → Registry C → Prop
  | init : Run harbor [] ⟨fun _ => none, fun _ => none, fun _ => none⟩
  | next {trace r x r'} : Run harbor trace r → Step harbor r x r' → Run harbor (trace ++ [x]) r'

end Registry

namespace Storage
variable {C : Type} {s : Storage C} {harbor h0 handle n r : Nat} {ctx : C} {e : Entry C}

/-- The context that was given a handle. -/
def find (s : Storage C) (handle : Nat) : Option (Entry C) :=
  (s.slot (handle % s.slotSize)).filter fun e => e.given = handle

/-- The tables the storage holds. -/
def registry (s : Storage C) : Registry C where
  contexts := fun handle => ((s.find handle).filter Entry.written).map Entry.ctx
  reserved := fun handle => ((s.find handle).filter fun e => !e.written).map Entry.ctx
  names := Bisect.get s.names

structure Inv (harbor : Nat) (s : Storage C) : Prop where
  size : ∃ k, 2 ≤ k ∧ k ≤ 24 ∧ s.slotSize = 2 ^ k
  base : s.harbor = harbor * 2 ^ 24
  index : 1 ≤ s.handleIndex ∧ s.handleIndex ≤ 2 ^ 24
  slots : ∀ i e, s.slot i = some e →
    e.given % s.slotSize = i ∧ e.given / 2 ^ 24 = harbor ∧ e.given % 2 ^ 24 ≠ 0
  names : Bisect.Sorted s.names

theorem Inv.size_pos (inv : s.Inv harbor) : 4 ≤ s.slotSize := by
  obtain ⟨k, low, -, size⟩ := inv.size
  rw [size]
  exact (Nat.pow_le_pow_right (by decide : 0 < 2) low : 2 ^ 2 ≤ 2 ^ k)

theorem Inv.size_dvd (inv : s.Inv harbor) : s.slotSize ∣ 2 ^ 24 := by
  obtain ⟨k, -, high, size⟩ := inv.size
  rw [size]
  exact Nat.pow_dvd_pow 2 high

/-- The low bits of a handle are its rest by the size. -/
theorem Inv.and_size (inv : s.Inv harbor) (handle : Nat) :
    handle &&& (s.slotSize - 1) = handle % s.slotSize := by
  obtain ⟨k, -, -, size⟩ := inv.size
  rw [size, Nat.and_two_pow_sub_one_eq_mod]

theorem find_eq_some : s.find handle = some e ↔
    s.slot (handle % s.slotSize) = some e ∧ e.given = handle := by
  rw [find, Option.filter_eq_some_iff, decide_eq_true_eq]

theorem Inv.lt_size (inv : s.Inv harbor) (i : Nat) : i % s.slotSize < s.slotSize :=
  Nat.mod_lt i (Nat.lt_of_lt_of_le (by decide) inv.size_pos)

theorem Inv.slot_lt (inv : s.Inv harbor) {i : Nat} (at_i : s.slot i = some e) :
    i < s.slotSize := by
  rw [← (inv.slots i e at_i).1]
  exact inv.lt_size e.given

theorem written_of_settled (inv : s.Inv harbor) (settled : s.settled = true) {i : Nat}
    (at_i : s.slot i = some e) : e.written = true := by
  rw [Storage.settled, List.all_eq_true] at settled
  have here := settled i (List.mem_range.mpr (inv.slot_lt at_i))
  rwa [at_i] at here

/-- A context is found by the handle its caller has written. -/
theorem Inv.grab_eq (inv : s.Inv harbor) (known : handle ≠ 0 ∨ s.settled = true) :
    s.grab handle = s.registry.contexts handle := by
  change _ = ((s.find handle).filter Entry.written).map Entry.ctx
  rw [grab, inv.and_size, find]
  cases at_h : s.slot (handle % s.slotSize) with
  | none => rfl
  | some e =>
      dsimp only
      rw [Option.filter_some, Entry.handle]
      cases written : e.written with
      | true =>
          by_cases own : e.given = handle
          · simp [own, Option.filter_some, written]
          · simp [own]
      | false =>
          -- such a context answers to handle 0 only
          have other : ¬ 0 = handle := by
            intro zero
            cases known with
            | inl low => exact low zero.symm
            | inr settled =>
                have wrote := written_of_settled inv settled at_h
                rw [written] at wrote
                cases wrote
          by_cases own : e.given = handle
          · simp [own, Option.filter_some, written, other]
          · simp [own, other]

/-- The handle a round of the inner loop looks at: they go round, and 0 is left out. -/
def visit (h0 i : Nat) : Nat := (h0 - 1 + i) % mask + 1

theorem visit_zero (low : 1 ≤ h0) (high : h0 ≤ 2 ^ 24) :
    visit h0 0 = if h0 > mask then 1 else h0 := by
  rw [visit, Nat.add_zero, mask]
  split
  · have last : h0 - 1 = 0xffffff := by omega
    rw [last]
  · rw [Nat.mod_eq_of_lt (by omega)]
    omega

theorem visit_succ (h0 i : Nat) : visit (visit h0 0 + 1) i = visit h0 (i + 1) := by
  change ((h0 - 1) % mask + 1 + i) % mask + 1 = (h0 - 1 + (i + 1)) % mask + 1
  rw [Nat.add_assoc _ 1 i, Nat.mod_add_mod, Nat.add_comm 1 i]

theorem visit_bounds (h0 i : Nat) : 1 ≤ visit h0 i ∧ visit h0 i < 2 ^ 24 := by
  have := Nat.mod_lt (h0 - 1 + i) (by decide : mask > 0)
  rw [visit]
  simp only [mask] at this ⊢
  omega

/-- Every slot but the first is looked at. -/
theorem exists_visit {size : Nat} (low : 1 ≤ h0) (high : h0 ≤ 2 ^ 24) (dvd : size ∣ 2 ^ 24)
    (pos : 1 ≤ r) (lt : r < size) : ∃ i < size, visit h0 i % size = r := by
  obtain ⟨q, whole⟩ := dvd
  -- the first handle from `h0` on with these low bits, wherever the end of the range is
  obtain ⟨d, d_lt, d_eq⟩ : ∃ d < size, (h0 + d) % size = r := by
    refine ⟨(r + (size - h0 % size)) % size, Nat.mod_lt _ (by omega), ?_⟩
    rw [Nat.add_mod_mod, ← Nat.mod_add_mod]
    have h0_lt := Nat.mod_lt h0 (by omega : 0 < size)
    have round : h0 % size + (r + (size - h0 % size)) = r + size := by omega
    rw [round, Nat.add_mod_right, Nat.mod_eq_of_lt lt]
  by_cases inside : h0 + d < 2 ^ 24
  · refine ⟨d, d_lt, ?_⟩
    have here : visit h0 d = h0 + d := by
      rw [visit, Nat.mod_eq_of_lt (by rw [mask]; omega)]
      omega
    rw [here, d_eq]
  · -- beyond the end: the round begins again at 1
    have beyond : 2 ^ 24 + r ≤ h0 + d := by
      have split := Nat.div_add_mod (h0 + d) size
      rw [d_eq] at split
      have quotient : q ≤ (h0 + d) / size := by
        rw [Nat.le_div_iff_mul_le (by omega), Nat.mul_comm, ← whole]
        omega
      have := Nat.mul_le_mul_left size quotient
      omega
    have small : size ≤ 2 ^ 24 := Nat.le_of_dvd (by decide) ⟨q, whole⟩
    refine ⟨2 ^ 24 + r - (h0 + 1), by omega, ?_⟩
    have here : visit h0 (2 ^ 24 + r - (h0 + 1)) = r := by
      have round : h0 - 1 + (2 ^ 24 + r - (h0 + 1)) = r - 1 + mask := by
        rw [mask]
        omega
      rw [visit, round, Nat.add_mod_right, Nat.mod_eq_of_lt (by rw [mask]; omega)]
      omega
    rw [here, Nat.mod_eq_of_lt lt]

theorem probe_some (inv : s.Inv harbor) (low : 1 ≤ h0) (high : h0 ≤ 2 ^ 24)
    (found : s.probe n h0 = some handle) :
    1 ≤ handle ∧ handle < 2 ^ 24 ∧ s.slot (handle % s.slotSize) = none := by
  induction n generalizing h0 with
  | zero => cases found
  | succ n ih =>
      rw [probe, ← visit_zero low high] at found
      have bounds := visit_bounds h0 0
      split at found
      · rename_i free
        cases found
        rw [inv.and_size] at free
        exact ⟨bounds.1, bounds.2, Option.isNone_iff_eq_none.mp free⟩
      · exact ih (by omega) (by omega) found

theorem probe_none (inv : s.Inv harbor) (low : 1 ≤ h0) (high : h0 ≤ 2 ^ 24)
    (missed : s.probe n h0 = none) :
    ∀ i < n, s.slot (visit h0 i % s.slotSize) ≠ none := by
  induction n generalizing h0 with
  | zero =>
      intro i lt
      cases lt
  | succ n ih =>
      rw [probe, ← visit_zero low high] at missed
      have bounds := visit_bounds h0 0
      split at missed
      · cases missed
      · rename_i full
        intro i lt
        cases i with
        | zero =>
            rw [inv.and_size] at full
            intro free
            rw [free] at full
            exact full rfl
        | succ i =>
            rw [← visit_succ]
            exact ih (by omega) (by omega) missed i (by omega)

/-- A failing probe has found every slot but the first in use. -/
theorem probe_full (inv : s.Inv harbor) (missed : s.probe s.slotSize s.handleIndex = none)
    (pos : 1 ≤ r) (lt : r < s.slotSize) : ∃ e, s.slot r = some e := by
  obtain ⟨i, inside, here⟩ := exists_visit inv.index.1 inv.index.2 inv.size_dvd pos lt
  have full := probe_none inv inv.index.1 inv.index.2 missed i inside
  rw [here] at full
  exact Option.ne_none_iff_exists'.mp full

theorem Inv.and_double (inv : s.Inv harbor) (handle : Nat) :
    handle &&& (s.slotSize * 2 - 1) = handle % (s.slotSize * 2) := by
  obtain ⟨k, -, -, size⟩ := inv.size
  rw [size, ← Nat.pow_succ, Nat.and_two_pow_sub_one_eq_mod]

/-- What the larger table holds after some slots. -/
def doubled (s : Storage C) (n j : Nat) : Option (Entry C) :=
  if j % s.slotSize < n then
    (s.slot (j % s.slotSize)).filter fun e => e.given % (s.slotSize * 2) = j
  else none

theorem doubled_succ_ne {j : Nat} (other : j % s.slotSize ≠ n) :
    s.doubled (n + 1) j = s.doubled n j := by
  have same : j % s.slotSize < n + 1 ↔ j % s.slotSize < n := by omega
  rw [doubled, doubled]
  simp only [same]

/-- Contexts that know their handles come to free places. -/
theorem rehash_eq (inv : s.Inv harbor) (settled : s.settled = true) (n : Nat) :
    ((List.range n).foldlM s.rehashSlot fun _ => none) = some (s.doubled n) := by
  induction n with
  | zero => rfl
  | succ n ih =>
      rw [List.range_succ, List.foldlM_append, ih]
      change (s.rehashSlot (s.doubled n) n).bind some = some (s.doubled (n + 1))
      rw [Option.bind_fun_some, rehashSlot]
      cases at_n : s.slot n with
      | none =>
          refine congrArg some (funext fun j => ?_)
          by_cases last : j % s.slotSize = n
          · rw [doubled, doubled, last, at_n]
            simp
          · exact (doubled_succ_ne last).symm
      | some e =>
          obtain ⟨low, -⟩ := inv.slots n e at_n
          have handle : e.handle = e.given := by
            rw [Entry.handle, if_pos (written_of_settled inv settled at_n)]
          have slot : e.given % (s.slotSize * 2) % s.slotSize = n := by
            rw [Nat.mod_mul_right_mod, low]
          have free : s.doubled n (e.given % (s.slotSize * 2)) = none := by
            rw [doubled, slot, if_neg (Nat.lt_irrefl n)]
          dsimp only
          rw [inv.and_double, handle, free, Option.isNone_none, if_pos rfl]
          refine congrArg some (funext fun j => ?_)
          by_cases here : j = e.given % (s.slotSize * 2)
          · rw [here, Function.update_self, doubled, slot, at_n, if_pos (Nat.lt_succ_self n),
              Option.filter_some, if_pos (decide_eq_true rfl)]
          · rw [Function.update_of_ne here]
            by_cases last : j % s.slotSize = n
            · rw [doubled, doubled, last, at_n, if_neg (Nat.lt_irrefl n),
                if_pos (Nat.lt_succ_self n), Option.filter_some,
                if_neg (by simpa using Ne.symm here)]
            · exact (doubled_succ_ne last).symm

/-- The larger table. -/
def larger (s : Storage C) : Storage C :=
  { s with slotSize := s.slotSize * 2, slot := s.doubled s.slotSize }

theorem grow_eq (inv : s.Inv harbor) (settled : s.settled = true) : s.grow = some s.larger := by
  rw [grow, rehash_eq inv settled]
  rfl

theorem Inv.slot_larger (inv : s.Inv harbor) (j : Nat) : s.larger.slot j =
    (s.slot (j % s.slotSize)).filter fun e => e.given % (s.slotSize * 2) = j := by
  change s.doubled s.slotSize j = _
  rw [doubled, if_pos (inv.lt_size j)]

theorem Inv.larger (inv : s.Inv harbor) (room : s.slotSize * 2 - 1 ≤ mask) :
    s.larger.Inv harbor := by
  refine ⟨?_, inv.base, inv.index, ?_, inv.names⟩
  · obtain ⟨k, low, -, size⟩ := inv.size
    refine ⟨k + 1, by omega, ?_, by rw [Storage.larger, size, Nat.pow_succ]⟩
    rw [size, ← Nat.pow_succ, mask] at room
    by_contra high
    have := Nat.pow_le_pow_right (by decide : 0 < 2) (by omega : 25 ≤ k + 1)
    omega
  · intro j e at_j
    rw [inv.slot_larger, Option.filter_eq_some_iff] at at_j
    obtain ⟨old, here⟩ := at_j
    obtain ⟨-, base, low⟩ := inv.slots _ e old
    exact ⟨of_decide_eq_true here, base, low⟩

theorem Inv.find_larger (inv : s.Inv harbor) : s.larger.find = s.find := by
  funext handle
  have size : s.larger.slotSize = s.slotSize * 2 := rfl
  have low : handle % (s.slotSize * 2) % s.slotSize = handle % s.slotSize :=
    Nat.mod_mul_right_mod ..
  refine Option.ext fun e => ?_
  rw [find_eq_some, find_eq_some, inv.slot_larger, size, low, Option.filter_eq_some_iff,
    decide_eq_true_eq]
  refine ⟨fun here => ⟨here.1.1, here.2⟩, fun here => ⟨⟨here.1, ?_⟩, here.2⟩⟩
  rw [here.2]

/-- The larger table has room. -/
theorem probe_larger (inv : s.Inv harbor) (room : s.slotSize * 2 - 1 ≤ mask) :
    ∃ handle, s.larger.probe s.larger.slotSize s.larger.handleIndex = some handle := by
  have pos := inv.size_pos
  cases found : s.larger.probe s.larger.slotSize s.larger.handleIndex with
  | some handle => exact ⟨handle, rfl⟩
  | none =>
      -- two slots of the larger table would come from one of the smaller
      have size : s.larger.slotSize = s.slotSize * 2 := rfl
      obtain ⟨e, first⟩ :=
        probe_full (inv.larger room) found (Nat.le_refl 1) (by rw [size]; omega)
      obtain ⟨e', second⟩ := probe_full (r := 1 + s.slotSize) (inv.larger room) found
        (by omega) (by rw [size]; omega)
      rw [inv.slot_larger, Option.filter_eq_some_iff] at first second
      rw [Nat.mod_eq_of_lt (by omega : 1 < s.slotSize)] at first
      rw [Nat.add_mod_right, Nat.mod_eq_of_lt (by omega : 1 < s.slotSize)] at second
      cases first.1.symm.trans second.1
      have one := of_decide_eq_true first.2
      have other := of_decide_eq_true second.2
      omega

/-- The tables behind a step about one handle. -/
theorem registry_eq {s' : Storage C} {handle : Nat} {e : Option (Entry C)}
    (find : s'.find = Function.update s.find handle e) :
    s'.registry =
      { contexts := Function.update s.registry.contexts handle
          ((e.filter Entry.written).map Entry.ctx)
        reserved := Function.update s.registry.reserved handle
          ((e.filter fun e => !e.written).map Entry.ctx)
        names := Bisect.get s'.names } := by
  have known : ∀ f : Option (Entry C) → Option C,
      (fun h => f (s'.find h)) = Function.update (fun h => f (s.find h)) handle (f e) := by
    intro f
    rw [find]
    exact (Function.comp_update f s.find handle e)
  rw [registry, known fun e => (e.filter Entry.written).map Entry.ctx,
    known fun e => (e.filter fun e => !e.written).map Entry.ctx]
  rfl

/-- A handle in none of the tables has no context. -/
theorem registry_of_find_none (absent : s.find handle = none) :
    s.registry.contexts handle = none ∧ s.registry.reserved handle = none := by
  refine ⟨?_, ?_⟩
  · exact congrArg (fun e => (e.filter Entry.written).map Entry.ctx) absent
  · exact congrArg (fun e => (e.filter fun e => !e.written).map Entry.ctx) absent

/-- The table with a new context at a handle that was free. -/
theorem occupy_step (inv : s.Inv harbor)
    (found : s.probe s.slotSize s.handleIndex = some handle) (ctx : C) :
    (s.occupy ctx handle).Inv harbor ∧ Registry.Step harbor s.registry
      (.register ctx, .handle (handle ||| s.harbor)) (s.occupy ctx handle).registry := by
  obtain ⟨low, high, free⟩ := probe_some inv inv.index.1 inv.index.2 found
  have full : handle ||| s.harbor = harbor * 2 ^ 24 + handle := by
    rw [inv.base, Nat.or_comm, Nat.mul_comm, Nat.two_pow_add_eq_or_of_lt high]
  have bits : (harbor * 2 ^ 24 + handle) % s.slotSize = handle % s.slotSize := by
    obtain ⟨q, whole⟩ := inv.size_dvd
    rw [whole, Nat.mul_left_comm, Nat.mul_add_mod]
  have slots : (s.occupy ctx handle).slot = Function.update s.slot (handle % s.slotSize)
      (some ⟨ctx, harbor * 2 ^ 24 + handle, false⟩) := by
    rw [occupy, inv.and_size, full]
  have inv' : (s.occupy ctx handle).Inv harbor := by
    refine ⟨inv.size, inv.base, ⟨Nat.le_add_left 1 handle, high⟩, ?_, inv.names⟩
    intro i e at_i
    rw [slots] at at_i
    by_cases here : i = handle % s.slotSize
    · rw [here, Function.update_self] at at_i
      cases at_i
      exact ⟨bits.trans here.symm, by dsimp only; omega, by dsimp only; omega⟩
    · rw [Function.update_of_ne here] at at_i
      exact inv.slots i e at_i
  have finds : (s.occupy ctx handle).find = Function.update s.find (harbor * 2 ^ 24 + handle)
      (some ⟨ctx, harbor * 2 ^ 24 + handle, false⟩) := by
    funext other
    change ((s.occupy ctx handle).slot (other % s.slotSize)).filter _ = _
    rw [slots]
    by_cases same : other = harbor * 2 ^ 24 + handle
    · rw [same, bits, Function.update_self, Function.update_self, Option.filter_some]
      exact if_pos (decide_eq_true rfl)
    · rw [Function.update_of_ne same]
      by_cases slot : other % s.slotSize = handle % s.slotSize
      · rw [find, slot, Function.update_self, free, Option.filter_some]
        exact if_neg (by simpa using Ne.symm same)
      · rw [Function.update_of_ne slot]
        rfl
  have absent : s.find (harbor * 2 ^ 24 + handle) = none := by
    rw [find, bits, free]
    rfl
  obtain ⟨unknown, unreserved⟩ := registry_of_find_none absent
  have same : Function.update s.registry.contexts (harbor * 2 ^ 24 + handle) none =
      s.registry.contexts := by
    rw [← unknown, Function.update_eq_self]
  refine ⟨inv', ?_⟩
  rw [full, registry_eq finds]
  change Registry.Step harbor _ _
    ⟨Function.update s.registry.contexts (harbor * 2 ^ 24 + handle) none, _, _⟩
  rw [same]
  exact .register unknown unreserved (by omega) (by omega)

/-- Two rounds are enough: a context gets a handle, or all handles are in use. -/
theorem register_returns (inv : s.Inv harbor) (ctx : C)
    (known : s.contract (.register ctx) = true) :
    (∃ s' handle, s.register ctx = some (s', handle) ∧ s'.Inv harbor ∧
      Registry.Step harbor s.registry (.register ctx, .handle handle) s'.registry) ∨
    s.register ctx = none ∧
      Registry.Step harbor s.registry (.register ctx, .aborted) s.registry := by
  rw [register]
  cases found : s.probe s.slotSize s.handleIndex with
  | some handle =>
      obtain ⟨inv', step⟩ := occupy_step inv found ctx
      exact .inl ⟨_, _, by rw [registerLoop, found], inv', step⟩
  | none =>
      have settled : s.settled = true := by
        rw [contract, found] at known
        exact known
      by_cases room : s.slotSize * 2 - 1 ≤ mask
      · have grows : registerLoop ctx 2 s = registerLoop ctx 1 s.larger := by
          rw [registerLoop, found]
          dsimp only
          rw [if_pos room, grow_eq inv settled]
          rfl
        have tables : s.larger.registry = s.registry := by
          rw [registry, registry, inv.find_larger]
          rfl
        obtain ⟨handle, found'⟩ := probe_larger inv room
        obtain ⟨inv', step⟩ := occupy_step (inv.larger room) found' ctx
        rw [grows, ← tables]
        exact .inl ⟨_, _, by rw [registerLoop, found'], inv', step⟩
      · have stops : registerLoop ctx 2 s = none := by
          rw [registerLoop, found]
          exact if_neg room
        have size : s.slotSize = 2 ^ 24 := by
          obtain ⟨k, low, high, size⟩ := inv.size
          rw [size, ← Nat.pow_succ, mask] at room
          have last : k = 24 := by
            by_contra other
            have := Nat.pow_le_pow_right (by decide : 0 < 2) (by omega : k + 1 ≤ 24)
            omega
          rw [size, last]
        refine .inr ⟨stops, .aborted ?_⟩
        intro i low high
        obtain ⟨e, at_i⟩ := probe_full (r := i) inv found low (by omega)
        obtain ⟨bits, base, -⟩ := inv.slots i e at_i
        rw [size] at bits
        have whole : e.given = harbor * 2 ^ 24 + i := by omega
        have here : s.find (harbor * 2 ^ 24 + i) = some e := by
          rw [find_eq_some, ← whole, size, bits]
          exact ⟨at_i, rfl⟩
        have written := written_of_settled inv settled at_i
        refine .inl ?_
        change ((s.find _).filter Entry.written).map Entry.ctx ≠ none
        rw [here, Option.filter_some, if_pos written]
        exact Option.some_ne_none _

/-- A caller is about to write a handle when the table reserves it. -/
theorem Inv.pending_eq (inv : s.Inv harbor) (pending : s.pending handle = true) :
    ∃ e, s.find handle = some e ∧ e.written = false := by
  rw [Storage.pending, List.any_eq_true] at pending
  obtain ⟨i, -, here⟩ := pending
  cases at_i : s.slot i with
  | none =>
      rw [at_i] at here
      cases here
  | some e =>
      rw [at_i, Option.any_some, decide_eq_true_eq] at here
      obtain ⟨given, unwritten⟩ := here
      have place := (inv.slots i e at_i).1
      refine ⟨e, find_eq_some.mpr ⟨?_, given⟩, unwritten⟩
      rw [← given, place, at_i]

theorem write_step (inv : s.Inv harbor) (pending : s.pending handle = true) :
    (s.write handle).Inv harbor ∧ Registry.Step harbor s.registry (.write handle, .written)
      (s.write handle).registry := by
  obtain ⟨e, here, unwritten⟩ := inv.pending_eq pending
  have given := (find_eq_some.mp here).2
  have kept : ∀ e : Entry C,
      (if e.given = handle then { e with written := true } else e).given = e.given := by
    intro e
    split
    · rfl
    · rfl
  have finds : (s.write handle).find =
      Function.update s.find handle (some { e with written := true }) := by
    funext other
    change ((s.slot (other % s.slotSize)).map _).filter _ = _
    by_cases same : other = handle
    · subst same
      rw [(find_eq_some.mp here).1, Function.update_self, Option.map_some, if_pos given,
        Option.filter_some]
      exact if_pos (decide_eq_true given)
    · rw [Function.update_of_ne same, find]
      cases s.slot (other % s.slotSize) with
      | none => rfl
      | some e' =>
          rw [Option.map_some, Option.filter_some, Option.filter_some, kept]
          by_cases own : e'.given = other
          · have apart : ¬ e'.given = handle := own ▸ same
            rw [if_neg apart]
          · rw [if_neg (by simpa using own), if_neg (by simpa using own)]
  refine ⟨⟨inv.size, inv.base, inv.index, ?_, inv.names⟩, ?_⟩
  · intro i e' at_i
    obtain ⟨old, at_old, rfl⟩ := Option.map_eq_some_iff.mp at_i
    rw [kept]
    exact inv.slots i old at_old
  · have reserved : s.registry.reserved handle = some e.ctx := by
      change ((s.find handle).filter fun e => !e.written).map Entry.ctx = _
      rw [here, Option.filter_some, unwritten]
      rfl
    rw [registry_eq finds]
    exact .write reserved

theorem retire_eq (at_h : s.grab handle = some ctx) : s.retire handle =
    ({ s with
      slot := Function.update s.slot (handle &&& (s.slotSize - 1)) none
      names := s.names.filter fun x => x.2 ≠ handle }, true) := by
  rw [retire, at_h]
  rfl

/-- The table without the context of a handle. -/
theorem Inv.find_vacate (inv : s.Inv harbor) (at_h : s.grab handle = some ctx)
    (here : s.find handle = some e) :
    (s.retire handle).1.find = Function.update s.find handle none := by
  obtain ⟨at_slot, given⟩ := find_eq_some.mp here
  have slots : (s.retire handle).1.slot =
      Function.update s.slot (handle % s.slotSize) none := by
    rw [retire_eq at_h, inv.and_size]
  have size : (s.retire handle).1.slotSize = s.slotSize := by
    rw [retire_eq at_h]
  funext other
  rw [find, slots, size]
  by_cases same : other = handle
  · rw [same, Function.update_self, Function.update_self]
    rfl
  · rw [Function.update_of_ne same]
    by_cases slot : other % s.slotSize = handle % s.slotSize
    · rw [slot, Function.update_self, find, slot, at_slot, Option.filter_some, given]
      exact (if_neg (by simpa using Ne.symm same)).symm
    · rw [Function.update_of_ne slot]
      rfl

/-- Retiring a handle takes away the names of it and no others. -/
theorem get_filter {t : List (Bytes × Nat)} (sorted : Bisect.Sorted t) (handle : Nat)
    (name : Bytes) : Bisect.get (t.filter fun x => x.2 ≠ handle) name =
      if Bisect.get t name = some handle then none else Bisect.get t name := by
  have rest : Bisect.Sorted (t.filter fun x => x.2 ≠ handle) := sorted.filter _
  have kept : ∀ d, Bisect.get (t.filter fun x => x.2 ≠ handle) name = some d ↔
      Bisect.get t name = some d ∧ d ≠ handle := by
    intro d
    rw [rest.get_eq_some, sorted.get_eq_some, List.mem_filter, decide_eq_true_eq]
  split
  · rename_i own
    cases left : Bisect.get (t.filter fun x => x.2 ≠ handle) name with
    | none => rfl
    | some d =>
        obtain ⟨old, other⟩ := (kept d).mp left
        rw [own] at old
        cases old
        exact absurd rfl other
  · rename_i other
    cases old : Bisect.get t name with
    | none =>
        cases left : Bisect.get (t.filter fun x => x.2 ≠ handle) name with
        | none => rfl
        | some d => exact ((kept d).mp left).1.symm.trans old
    | some d => exact (kept d).mpr ⟨old, fun own => other (own ▸ old)⟩

theorem retire_step (inv : s.Inv harbor) (handle : Nat)
    (known : handle ≠ 0 ∨ s.settled = true) :
    (s.retire handle).1.Inv harbor ∧ Registry.Step harbor s.registry
      (.retire handle, .flag (s.retire handle).2) (s.retire handle).1.registry := by
  have grabs := inv.grab_eq known
  cases at_h : s.grab handle with
  | none =>
      have same : s.retire handle = (s, false) := by
        rw [retire, at_h]
        rfl
      rw [same]
      exact ⟨inv, .absent (grabs.symm.trans at_h)⟩
  | some ctx =>
      have contexts := grabs.symm.trans at_h
      obtain ⟨e, kept, -⟩ := Option.map_eq_some_iff.mp contexts
      obtain ⟨here, written⟩ := Option.filter_eq_some_iff.mp kept
      have unreserved : s.registry.reserved handle = none := by
        change ((s.find handle).filter fun e => !e.written).map Entry.ctx = none
        rw [here, Option.filter_some, written]
        rfl
      have same : Function.update s.registry.reserved handle none = s.registry.reserved := by
        rw [← unreserved, Function.update_eq_self]
      refine ⟨?_, ?_⟩
      · rw [retire_eq at_h]
        refine ⟨inv.size, inv.base, inv.index, ?_, inv.names.filter _⟩
        intro i e' at_i
        dsimp only at at_i
        by_cases here : i = handle &&& (s.slotSize - 1)
        · rw [here, Function.update_self] at at_i
          cases at_i
        · rw [Function.update_of_ne here] at at_i
          exact inv.slots i e' at_i
      · have tables : (s.retire handle).1.registry =
            { s.registry with
              contexts := Function.update s.registry.contexts handle none
              names := fun name => if s.registry.names name = some handle then none
                else s.registry.names name } := by
          rw [registry_eq (inv.find_vacate at_h here), retire_eq at_h]
          change Registry.mk _ (Function.update s.registry.reserved handle none) _ = _
          rw [same]
          exact congrArg _ (funext (get_filter inv.names handle))
        rw [tables, retire_eq at_h]
        exact .retire contexts

theorem namehandle_step (inv : s.Inv harbor) (handle : Nat) (name : Bytes) :
    (s.namehandle handle name).1.Inv harbor ∧ Registry.Step harbor s.registry
      (.namehandle handle name, .flag (s.namehandle handle name).2)
      (s.namehandle handle name).1.registry := by
  rw [namehandle]
  cases put : Bisect.insert s.names name handle with
  | none =>
      obtain ⟨handle', here⟩ := inv.names.insert_eq_none.mp put
      exact ⟨inv, .taken here⟩
  | some names =>
      obtain ⟨sorted, perm⟩ := inv.names.insert put
      have fresh : Bisect.get s.names name = none := by
        cases here : Bisect.get s.names name with
        | none => rfl
        | some handle' =>
            rw [inv.names.insert_eq_none.mpr ⟨handle', here⟩] at put
            cases put
      have get : Bisect.get names =
          Function.update (Bisect.get s.names) name (some handle) := by
        funext name'
        have entry : ∀ d, Bisect.get names name' = some d ↔
            (name' = name ∧ d = handle) ∨ Bisect.get s.names name' = some d := by
          intro d
          rw [sorted.get_eq_some, perm.mem_iff, List.mem_cons, inv.names.get_eq_some,
            Prod.mk.injEq]
        by_cases same : name' = name
        · rw [same, Function.update_self, ← same]
          exact (entry handle).mpr (.inl ⟨same, rfl⟩)
        · rw [Function.update_of_ne same]
          refine Option.ext fun d => ?_
          rw [entry d]
          simp [same]
      have tables : ({ s with names := names } : Storage C).registry =
          { s.registry with names := Function.update s.registry.names name (some handle) } := by
        change Registry.mk _ _ (Bisect.get names) = _
        rw [get]
        rfl
      refine ⟨⟨inv.size, inv.base, inv.index, inv.slots, sorted⟩, ?_⟩
      dsimp only
      rw [tables]
      exact .namehandle fresh

theorem step_registry {s' : Storage C} {ev : Event C} {o : Output C} (inv : s.Inv harbor)
    (known : s.contract ev = true) (step : s.step ev = some (s', o)) :
    s'.Inv harbor ∧ Registry.Step harbor s.registry (ev, o) s'.registry := by
  cases ev with
  | register ctx =>
      rw [Storage.step] at step
      cases register_returns inv ctx known with
      | inl registered =>
          obtain ⟨s', handle, result, inv', moved⟩ := registered
          rw [result] at step
          cases step
          exact ⟨inv', moved⟩
      | inr aborted =>
          rw [aborted.1] at step
          cases step
          exact ⟨inv, aborted.2⟩
  | write handle =>
      rw [Storage.step] at step
      split at step
      · rename_i pending
        cases step
        exact write_step inv pending
      · cases step
  | retire handle =>
      cases step
      exact retire_step inv handle (by simpa [contract] using known)
  | grab handle =>
      cases step
      rw [inv.grab_eq (by simpa [contract] using known)]
      exact ⟨inv, .grab⟩
  | namehandle handle name =>
      cases step
      exact namehandle_step inv handle name
  | findname name =>
      cases step
      exact ⟨inv, .findname⟩

theorem Inv.init (harbor : Nat) : (Storage.init harbor : Storage C).Inv (harbor &&& 0xff) := by
  refine ⟨⟨2, by decide, by decide, rfl⟩, Nat.shiftLeft_eq ..,
    ⟨Nat.le_refl 1, (by decide : 1 ≤ 2 ^ 24)⟩, ?_, .nil⟩
  intro i e at_i
  cases at_i

end Storage

/-- The storage answers every run of calls that keeps to its contract as the tables do. -/
theorem handles_refine {C : Type} {harbor : Nat} {trace : List (Event C × Output C)}
    {s : Storage C} (reach : ((machine harbor).guard Storage.contract).Reach trace s) :
    s.Inv (harbor &&& 0xff) ∧ Registry.Run (harbor &&& 0xff) trace s.registry := by
  induction reach with
  | init => exact ⟨.init harbor, .init⟩
  | next before taken ih =>
      obtain ⟨known, took⟩ := Machine.guard_step taken
      obtain ⟨inv, step⟩ := Storage.step_registry ih.1 known took
      exact ⟨inv, ih.2.next step⟩

/-- Four contexts fill the first table; a fifth doubles it, and is found once it knows its
handle. -/
theorem handles_refine_grown : ∃ trace, ∃ s : Storage String,
    ((machine 1).guard Storage.contract).Reach trace s ∧ s.slotSize = 8 ∧
      s.grab 0x1000001 = none ∧ s.grab 0x1000004 = some "d" ∧ s.grab 0x1000005 = some "e" ∧
      s.grab 0x1000006 = none ∧ s.pending 0x1000006 = true ∧
      s.Inv (1 &&& 0xff) ∧ Registry.Run (1 &&& 0xff) trace s.registry := by
  have ran : ∃ trace s, ((machine (C := String) 1).guard Storage.contract).run
      ((machine 1).guard Storage.contract).init
      [.register "a", .register "b", .write 0x1000002, .write 0x1000001, .register "c",
        .write 0x1000003, .namehandle 0x1000001 (ascii "b"), .register "d", .write 0x1000004,
        .register "e", .retire 0x1000001, .write 0x1000005, .findname (ascii "b"),
        .register "f"] = some (trace, s) ∧
      s.slotSize = 8 ∧ s.grab 0x1000001 = none ∧ s.grab 0x1000004 = some "d" ∧
      s.grab 0x1000005 = some "e" ∧ s.grab 0x1000006 = none ∧ s.pending 0x1000006 = true :=
    ⟨_, _, rfl, rfl, rfl, rfl, rfl, rfl, rfl⟩
  obtain ⟨trace, s, ran, size, gone, fourth, fifth, sixth, pending⟩ := ran
  exact ⟨trace, s, Machine.reach_run ran, size, gone, fourth, fifth, sixth, pending,
    handles_refine (Machine.reach_run ran)⟩

-- Outside of the contract: the table doubles while the fourth context does not know its handle.
example : (((machine (C := String) 1).exec (.init 1)
    [.register "a", .write 0x1000001, .register "b", .write 0x1000002, .register "c",
      .write 0x1000003, .register "d", .register "e", .write 0x1000004]).map
        fun s => s.grab 0x1000004) = some none := rfl

end Qiuqiu.Server.Handle
