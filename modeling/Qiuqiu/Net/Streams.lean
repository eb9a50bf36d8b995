import Qiuqiu.Net.Netpack

/-!
The filter of packages against the streams of the sockets. However the stream of a socket is
cut into reads and however the reads of different sockets follow each other, what comes out
are the packages of each stream, and what waits is the rest of each.
-/
namespace Qiuqiu.Net.Netpack

/-- The framing of packages. -/
def framing : Framing UInt8 where
  width := 2
  size
    | [high, low] => readSize high low
    | _ => 0
  width_pos := by decide

/-- A body as the queue keeps it. -/
def Pack.of (fd : Nat) (body : Bytes) : Pack := ⟨fd, body.length, body⟩

theorem readSize_eq (high low : UInt8) : readSize high low = high.toNat * 256 + low.toNat := by
  have := Nat.two_pow_add_eq_or_of_lt low.toNat_lt high.toNat
  rw [readSize, Nat.shiftLeft_eq, Nat.mul_comm, ← this, Nat.mul_comm]

theorem pack_split {data message : Bytes} (packed : pack data = some message) (s : Bytes) :
    framing.split (message ++ s) = (data :: (framing.split s).1, (framing.split s).2) := by
  rw [pack] at packed
  split at packed
  · cases packed
  · rename_i short
    cases packed
    have long : readSize (UInt8.ofNat (data.length >>> 8)) (UInt8.ofNat data.length) =
        data.length := by
      rw [readSize_eq, Nat.shiftRight_eq_div_pow, UInt8.toNat_ofNat', UInt8.toNat_ofNat']
      omega
    exact Framing.split_frame (F := framing)
      (by rfl : [UInt8.ofNat (data.length >>> 8), UInt8.ofNat data.length].length = 2) long s

theorem split_one (byte : UInt8) : framing.split [byte] = ([], [byte]) :=
  Framing.split_part fun whole => absurd whole.1 (by change ¬ 2 ≤ 1; decide)

variable {high low byte : UInt8} {buffer body : Bytes} {fd fd' : Nat} {uc : Uncomplete}
  {chain chain' : List Uncomplete} {q q' : Queue} {packs : List Pack} {rest : Nat → Bytes}

theorem whole_iff : framing.Whole (high :: low :: buffer) ↔ readSize high low ≤ buffer.length := by
  rw [Framing.Whole]
  change 2 ≤ buffer.length + 2 ∧ readSize high low ≤ buffer.length + 2 - 2 ↔ _
  omega

theorem split_short (short : buffer.length < readSize high low) :
    framing.split (high :: low :: buffer) = ([], high :: low :: buffer) :=
  Framing.split_part fun whole => by
    have := whole_iff.mp whole
    omega

theorem split_long (long : readSize high low ≤ buffer.length) :
    framing.split (high :: low :: buffer) =
      (buffer.take (readSize high low) :: (framing.split (buffer.drop (readSize high low))).1,
        (framing.split (buffer.drop (readSize high low))).2) :=
  Framing.split_whole (whole_iff.mpr long)

/-- The package that waits for the rest of a stream. -/
inductive Fits (fd : Nat) : Option Uncomplete → Bytes → Prop
  | none : Fits fd none []
  | header {byte : UInt8} : Fits fd (some (startHeader fd byte)) [byte]
  | data {high low header : UInt8} {buffer : Bytes} : buffer.length < readSize high low →
      Fits fd (some ⟨⟨fd, readSize high low, buffer⟩, buffer.length, header⟩)
        (high :: low :: buffer)

/-- The package of a socket in a chain. -/
def find (fd : Nat) (chain : List Uncomplete) : Option Uncomplete :=
  chain.find? fun uc => uc.pack.id = fd

theorem Fits.id_eq {s : Bytes} (fits : Fits fd (some uc) s) : uc.pack.id = fd := by
  cases fits with
  | header => rfl
  | data short => rfl

theorem find_cons : find fd (uc :: chain) = if uc.pack.id = fd then some uc else find fd chain := by
  rw [find, List.find?_cons]
  by_cases here : uc.pack.id = fd
  · rw [if_pos here]
    simp only [here, decide_true]
  · rw [if_neg here]
    simp only [here, decide_false]
    rfl

theorem findChain_none (absent : findChain fd chain = none) : find fd chain = none := by
  induction chain with
  | nil => rfl
  | cons uc next ih =>
      rw [findChain] at absent
      split at absent
      · cases absent
      · rename_i other
        rw [find_cons, if_neg other]
        exact ih (Option.map_eq_none_iff.mp absent)

theorem findChain_some (found : findChain fd chain = some (uc, chain')) :
    find fd chain = some uc ∧ chain'.Sublist chain ∧ uc.pack.id = fd ∧
      ∀ fd', fd' ≠ fd → find fd' chain' = find fd' chain := by
  induction chain generalizing chain' with
  | nil => cases found
  | cons first next ih =>
      rw [findChain] at found
      split at found
      · rename_i here
        cases found
        refine ⟨by rw [find_cons, if_pos here], List.sublist_cons_self .., here, ?_⟩
        intro fd' other
        rw [find_cons, if_neg (here ▸ Ne.symm other)]
      · rename_i other
        obtain ⟨later, at_next, eq⟩ := Option.map_eq_some_iff.mp found
        cases eq
        obtain ⟨same, sub, own, apart⟩ := ih at_next
        refine ⟨by rw [find_cons, if_neg other, same], sub.cons_cons first, own, ?_⟩
        intro fd' ne
        rw [find_cons, find_cons, apart fd' ne]

/-- In a chain with one package for each socket, the one that is taken out is gone. -/
theorem find_removed (nodup : (chain.map fun uc => uc.pack.id).Nodup)
    (found : findChain fd chain = some (uc, chain')) : find fd chain' = none := by
  induction chain generalizing chain' with
  | nil => cases found
  | cons first next ih =>
      rw [List.map_cons, List.nodup_cons] at nodup
      rw [findChain] at found
      split at found
      · rename_i here
        cases found
        refine List.find?_eq_none.mpr fun x mem same => ?_
        have twice : x.pack.id = uc.pack.id := (of_decide_eq_true same).trans here.symm
        exact nodup.1 (twice ▸ List.mem_map_of_mem mem)
      · rename_i other
        obtain ⟨later, at_next, eq⟩ := Option.map_eq_some_iff.mp found
        cases eq
        rw [find_cons, if_neg other]
        exact ih nodup.2 at_next

/-- The packages in the queue, and the rest of each stream. -/
structure Holds (q : Queue) (packs : List Pack) (rest : Nat → Bytes) : Prop where
  ring : q.ring.Holds packs
  fits : ∀ fd, Fits fd (find fd (q.hash (hashFd fd))) (rest fd)
  chains : ∀ h uc, uc ∈ q.hash h → hashFd uc.pack.id = h
  nodup : ∀ h, ((q.hash h).map fun uc => uc.pack.id).Nodup

theorem update_nil (none_yet : rest fd = []) : Function.update rest fd [] = rest := by
  rw [← none_yet, Function.update_eq_self]

namespace Holds

theorem empty : Holds .empty [] fun _ => [] where
  ring := .empty (by decide)
  fits := fun _ => .none
  chains := fun _ _ mem => absurd mem List.not_mem_nil
  nodup := fun _ => .nil

theorem findUncomplete_none (holds : Holds q packs rest) (absent : q.findUncomplete fd = none) :
    rest fd = [] := by
  have fits := holds.fits fd
  rw [findChain_none (Option.map_eq_none_iff.mp absent)] at fits
  generalize rest fd = s at fits ⊢
  cases fits
  rfl

theorem findUncomplete_some (holds : Holds q packs rest)
    (found : q.findUncomplete fd = some (uc, q')) :
    Fits fd (some uc) (rest fd) ∧ Holds q' packs (Function.update rest fd []) := by
  obtain ⟨⟨uc', chain⟩, in_chain, eq⟩ := Option.map_eq_some_iff.mp found
  cases eq
  obtain ⟨here, sub, own, apart⟩ := findChain_some in_chain
  refine ⟨here ▸ holds.fits fd, holds.ring, ?_, ?_, ?_⟩
  · intro fd'
    dsimp only
    by_cases same : fd' = fd
    · rw [same, Function.update_self, Function.update_self, find_removed (holds.nodup _) in_chain]
      exact .none
    · rw [Function.update_of_ne same]
      by_cases slot : hashFd fd' = hashFd fd
      · rw [slot, Function.update_self, apart fd' same, ← slot]
        exact holds.fits fd'
      · rw [Function.update_of_ne slot]
        exact holds.fits fd'
  · intro h x mem
    dsimp only at mem
    by_cases slot : h = hashFd fd
    · rw [slot, Function.update_self] at mem
      rw [slot]
      exact holds.chains _ x (sub.subset mem)
    · rw [Function.update_of_ne slot] at mem
      exact holds.chains h x mem
  · intro h
    dsimp only
    by_cases slot : h = hashFd fd
    · rw [slot, Function.update_self]
      exact (holds.nodup _).sublist (sub.map _)
    · rw [Function.update_of_ne slot]
      exact holds.nodup h

theorem saveUncomplete {s : Bytes} (holds : Holds q packs rest) (none_yet : rest fd = [])
    (fits : Fits fd (some uc) s) :
    Holds (q.saveUncomplete uc) packs (Function.update rest fd s) := by
  have own := fits.id_eq
  have absent : find fd (q.hash (hashFd fd)) = none := by
    have before := holds.fits fd
    rw [none_yet] at before
    generalize find fd (q.hash (hashFd fd)) = found at before
    cases before
    rfl
  refine ⟨holds.ring, ?_, ?_, ?_⟩
  · intro fd'
    dsimp only [Queue.saveUncomplete]
    rw [own]
    by_cases same : fd' = fd
    · rw [same, Function.update_self, Function.update_self, find_cons, if_pos own]
      exact fits
    · rw [Function.update_of_ne same]
      by_cases slot : hashFd fd' = hashFd fd
      · rw [slot, Function.update_self, find_cons, if_neg (own ▸ Ne.symm same), ← slot]
        exact holds.fits fd'
      · rw [Function.update_of_ne slot]
        exact holds.fits fd'
  · intro h x mem
    dsimp only [Queue.saveUncomplete] at mem
    by_cases slot : h = hashFd uc.pack.id
    · rw [slot, Function.update_self] at mem
      cases List.mem_cons.mp mem with
      | inl first => rw [first, slot]
      | inr later => exact slot ▸ holds.chains _ x later
    · rw [Function.update_of_ne slot] at mem
      exact holds.chains h x mem
  · intro h
    dsimp only [Queue.saveUncomplete]
    by_cases slot : h = hashFd uc.pack.id
    · rw [slot, Function.update_self, List.map_cons, List.nodup_cons]
      refine ⟨?_, holds.nodup _⟩
      intro mem
      obtain ⟨x, there, twice⟩ := List.mem_map.mp mem
      rw [own] at twice there
      exact List.find?_eq_none.mp absent x there (decide_eq_true twice)
    · rw [Function.update_of_ne slot]
      exact holds.nodup h

theorem pushData (holds : Holds q packs rest) (fd : Nat) (buffer : Bytes) (size : Nat) :
    Holds (q.pushData fd buffer size) (packs ++ [⟨fd, size, buffer⟩]) rest := by
  have larger : q.ring.cap < q.ring.cap + queueSize :=
    Nat.lt_add_of_pos_right (by decide : 0 < queueSize)
  have ring : (q.ring.push (· + queueSize) ⟨fd, size, buffer⟩).Holds
      (packs ++ [⟨fd, size, buffer⟩]) := holds.ring.push larger _
  exact ⟨ring, holds.fits, holds.chains, holds.nodup⟩

/-- The packages behind the first ones of a read go to the queue. -/
theorem pushMore {rounds : Nat} (holds : Holds q packs rest) (none_yet : rest fd = [])
    (enough : buffer.length ≤ rounds) :
    Holds (pushMore rounds q fd buffer) (packs ++ (framing.split buffer).1.map (Pack.of fd))
      (Function.update rest fd (framing.split buffer).2) := by
  induction rounds generalizing q packs buffer with
  | zero =>
      rw [List.length_eq_zero_iff.mp (Nat.le_zero.mp enough), Framing.split_nil,
        update_nil none_yet, List.map_nil, List.append_nil]
      exact holds
  | succ rounds ih =>
      match buffer with
      | [] =>
          rw [Framing.split_nil, update_nil none_yet, List.map_nil, List.append_nil]
          exact holds
      | [byte] =>
          rw [split_one, List.map_nil, List.append_nil]
          exact holds.saveUncomplete none_yet .header
      | high :: low :: buffer =>
          rw [Netpack.pushMore]
          dsimp only
          by_cases short : buffer.length < readSize high low
          · rw [if_pos short, split_short short, List.map_nil, List.append_nil]
            exact holds.saveUncomplete none_yet (.data short)
          · have long := Nat.not_lt.mp short
            rw [if_neg short, split_long long, List.map_cons, List.append_cons]
            have pushed :=
              holds.pushData fd (buffer.take (readSize high low)) (readSize high low)
            have first : Pack.of fd (buffer.take (readSize high low)) =
                ⟨fd, readSize high low, buffer.take (readSize high low)⟩ := by
              rw [Pack.of, List.length_take, Nat.min_eq_left long]
            rw [first]
            by_cases more : 0 < buffer.length - readSize high low
            · rw [if_pos more]
              refine ih pushed ?_
              rw [List.length_drop]
              rw [List.length_cons, List.length_cons] at enough
              omega
            · rw [if_neg more, List.drop_eq_nil_of_le (by omega), Framing.split_nil,
                update_nil none_yet, List.map_nil, List.append_nil]
              exact pushed

end Holds

/-- What the filter does with the bodies that a read completes: there is none, the only one is
returned, or all are in the queue. -/
def Passes (packs : List Pack) (rest : Nat → Bytes) (fd : Nat) (bodies : List Bytes)
    (filtered : Queue × Option Result) : Prop :=
  match filtered.2 with
  | none => bodies = [] ∧ Holds filtered.1 packs rest
  | some (.data fd' body size) =>
      bodies = [body] ∧ fd' = fd ∧ size = body.length ∧ Holds filtered.1 packs rest
  | some .more => bodies ≠ [] ∧ Holds filtered.1 (packs ++ bodies.map (Pack.of fd)) rest
  | _ => False

/-- A package that was not complete, with more bytes of its stream. -/
theorem fill_passes (high low header : UInt8) {filled : Bytes} (holds : Holds q packs rest)
    (none_yet : rest fd = []) (part : filled.length ≤ readSize high low) (buffer : Bytes) :
    Passes packs (Function.update rest fd (framing.split (high :: low :: (filled ++ buffer))).2) fd
      (framing.split (high :: low :: (filled ++ buffer))).1
      (fillUncomplete q fd ⟨⟨fd, readSize high low, filled⟩, filled.length, header⟩ buffer) := by
  have taken : filled.take (filled.length : Int).toNat = filled := by
    rw [Int.toNat_natCast, List.take_length]
  rw [fillUncomplete]
  dsimp only
  rw [taken, Int.toNat_natCast]
  by_cases short : buffer.length < readSize high low - filled.length
  · have less : (filled ++ buffer).length < readSize high low := by
      rw [List.length_append]
      omega
    rw [if_pos short, split_short less, List.take_of_length_le (by omega)]
    refine ⟨rfl, ?_⟩
    have fits : Fits fd (some ⟨⟨fd, readSize high low, filled ++ buffer⟩,
        (filled ++ buffer).length, header⟩) (high :: low :: (filled ++ buffer)) := .data less
    have saved := holds.saveUncomplete none_yet fits
    rwa [List.length_append, Int.natCast_add] at saved
  · have long : readSize high low ≤ (filled ++ buffer).length := by
      rw [List.length_append]
      omega
    have body : (filled ++ buffer).take (readSize high low) =
        filled ++ buffer.take (readSize high low - filled.length) := by
      rw [List.take_append, List.take_of_length_le part]
    have behind : (filled ++ buffer).drop (readSize high low) =
        buffer.drop (readSize high low - filled.length) := by
      rw [List.drop_append, List.drop_eq_nil_of_le part, List.nil_append]
    have size : (filled ++ buffer.take (readSize high low - filled.length)).length =
        readSize high low := by
      rw [← body, List.length_take, Nat.min_eq_left long]
    rw [if_neg short, split_long long, body, behind]
    by_cases all : buffer.length - (readSize high low - filled.length) = 0
    · rw [if_pos all, List.drop_eq_nil_of_le (by omega), Framing.split_nil,
        update_nil none_yet]
      exact ⟨rfl, rfl, size.symm, holds⟩
    · rw [if_neg all]
      refine ⟨List.cons_ne_nil _ _, ?_⟩
      have pushed := holds.pushData fd
        (filled ++ buffer.take (readSize high low - filled.length)) (readSize high low)
      rw [List.map_cons, List.append_cons, Pack.of, size]
      exact pushed.pushMore none_yet (by rw [List.length_drop]; omega)

/-- A read of a socket gives the bodies its stream completes, and keeps the rest. -/
theorem filterData_passes (holds : Holds q packs rest) (fd : Nat) (byte : UInt8)
    (buffer : Bytes) :
    Passes packs (Function.update rest fd (framing.split (rest fd ++ byte :: buffer)).2) fd
      (framing.split (rest fd ++ byte :: buffer)).1 (filterData q fd byte buffer) := by
  unfold filterData
  cases found : q.findUncomplete fd with
  | none =>
      have none_yet := holds.findUncomplete_none found
      rw [none_yet, List.nil_append]
      cases buffer with
      | nil =>
          rw [split_one]
          exact ⟨rfl, holds.saveUncomplete none_yet .header⟩
      | cons low buffer =>
          dsimp only
          by_cases short : buffer.length < readSize byte low
          · rw [if_pos short, split_short short]
            exact ⟨rfl, holds.saveUncomplete none_yet (.data short)⟩
          · have long := Nat.not_lt.mp short
            rw [if_neg short, split_long long]
            by_cases all : buffer.length = readSize byte low
            · rw [if_pos all, ← all, List.drop_length, List.take_length, Framing.split_nil,
                update_nil none_yet]
              exact ⟨rfl, rfl, rfl, holds⟩
            · rw [if_neg all]
              refine ⟨List.cons_ne_nil _ _, ?_⟩
              have pushed :=
                holds.pushData fd (buffer.take (readSize byte low)) (readSize byte low)
              have first : Pack.of fd (buffer.take (readSize byte low)) =
                  ⟨fd, readSize byte low, buffer.take (readSize byte low)⟩ := by
                rw [Pack.of, List.length_take, Nat.min_eq_left long]
              rw [List.map_cons, List.append_cons, first]
              exact pushed.pushMore none_yet (by rw [List.length_drop]; omega)
  | some x =>
      obtain ⟨uc, q'⟩ := x
      obtain ⟨fits, holds'⟩ := holds.findUncomplete_some found
      have none_yet : Function.update rest fd [] fd = [] := Function.update_self ..
      generalize rest fd = stream at fits
      dsimp only
      cases fits with
      | @header first =>
          have size : byte.toNat ||| first.toNat <<< 8 = readSize first byte := Nat.or_comm ..
          have start : ([] : Bytes).length ≤ readSize first byte := Nat.zero_le _
          have filled := fill_passes first byte first holds' none_yet start buffer
          rw [Function.update_idem] at filled
          have negative : (startHeader fd first).read < 0 := (by decide : (-1 : Int) < 0)
          rw [if_pos negative]
          change Passes _ _ _ _ (fillUncomplete q' fd
            ⟨⟨fd, byte.toNat ||| first.toNat <<< 8, []⟩, 0, first⟩ buffer)
          rw [size]
          exact filled
      | @data high low header filled short =>
          have more := fill_passes high low header holds' none_yet (Nat.le_of_lt short)
            (byte :: buffer)
          rw [Function.update_idem] at more
          rw [if_neg (Int.not_lt.mpr (Int.natCast_nonneg _))]
          exact more

theorem closeUncomplete_holds (holds : Holds q packs rest) (fd : Nat) :
    Holds (closeUncomplete q fd) packs (Function.update rest fd []) := by
  rw [closeUncomplete]
  cases found : q.findUncomplete fd with
  | none =>
      rw [← holds.findUncomplete_none found, Function.update_eq_self]
      exact holds
  | some x => exact (holds.findUncomplete_some found).2

end Qiuqiu.Net.Netpack
