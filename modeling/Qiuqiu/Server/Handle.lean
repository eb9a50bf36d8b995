import Mathlib.Algebra.Group.Nat.Defs
import Mathlib.Logic.Function.Basic
import Qiuqiu.Base.Bisect
import Qiuqiu.Base.Bytes
import Qiuqiu.Base.Machine

/-!
The storage of handles (skynet-src/skynet_handle.c). A context stands in the slot of the low
bits of its handle; a full table doubles. Names stand in an array sorted by `strcmp`, which
compares the bytes. Under the lock of the storage each call is one step; the caller of
`skynet_handle_register` writes the handle into its context behind the lock, in a step of its
own.
-/
namespace Qiuqiu.Server.Handle

/-- `HANDLE_MASK`. -/
def mask : Nat := 0xffffff

/-- A context in a slot, with the handle it was given and whether the caller has written it to
`ctx->handle`, which is 0 before. -/
structure Entry (C : Type) where
  ctx : C
  given : Nat
  written : Bool

/-- `skynet_context_handle`. -/
def Entry.handle {C : Type} (e : Entry C) : Nat := if e.written then e.given else 0

structure Storage (C : Type) where
  harbor : Nat
  handleIndex : Nat
  slotSize : Nat
  slot : Nat → Option (Entry C)
  names : List (Bytes × Nat)

namespace Storage
variable {C : Type} (s : Storage C)

/-- `skynet_handle_init`. -/
def init (harbor : Nat) : Storage C where
  harbor := (harbor &&& 0xff) <<< 24
  handleIndex := 1
  slotSize := 4
  slot := fun _ => none
  names := []

/-- The inner loop of `skynet_handle_register`, with the rounds that are left. -/
def probe : Nat → Nat → Option Nat
  | 0, _ => none
  | rounds + 1, handle =>
      let handle := if handle > mask then 1 else handle
      if (s.slot (handle &&& (s.slotSize - 1))).isNone then some handle
      else probe rounds (handle + 1)

/-- One context comes to its place in the larger table, which the source asserts to be free. -/
def rehashSlot (slot : Nat → Option (Entry C)) (i : Nat) : Option (Nat → Option (Entry C)) :=
  match s.slot i with
  | some e =>
      let hash := e.handle &&& (s.slotSize * 2 - 1)
      if (slot hash).isNone then some (Function.update slot hash (some e)) else none
  | none => some slot

def grow : Option (Storage C) :=
  ((List.range s.slotSize).foldlM s.rehashSlot fun _ => none).map fun slot =>
    { s with slotSize := s.slotSize * 2, slot := slot }

/-- A context comes to the slot of a handle. -/
def occupy (ctx : C) (handle : Nat) : Storage C :=
  { s with
    slot := Function.update s.slot (handle &&& (s.slotSize - 1))
      (some ⟨ctx, handle ||| s.harbor, false⟩)
    handleIndex := handle + 1 }

/-- The outer loop of `skynet_handle_register`, with the rounds that are left; nothing when
an assertion fails. Two rounds are enough (`register_returns`). -/
def registerLoop (ctx : C) : Nat → Storage C → Option (Storage C × Nat)
  | 0, _ => none
  | rounds + 1, s =>
      match s.probe s.slotSize s.handleIndex with
      | some handle => some (s.occupy ctx handle, handle ||| s.harbor)
      | none =>
          if s.slotSize * 2 - 1 ≤ mask then s.grow.bind (registerLoop ctx rounds) else none

def register (ctx : C) : Option (Storage C × Nat) := registerLoop ctx 2 s

/-- A caller of `skynet_handle_register` that has got this handle and not written it yet. -/
def pending (handle : Nat) : Bool :=
  (List.range s.slotSize).any fun i =>
    (s.slot i).any fun e => e.given = handle ∧ e.written = false

/-- `ctx->handle = skynet_handle_register(ctx)` of `skynet_context_new`, behind the call. -/
def write (handle : Nat) : Storage C :=
  { s with slot := fun i => (s.slot i).map fun e =>
      if e.given = handle then { e with written := true } else e }

/-- `skynet_handle_grab`. -/
def grab (handle : Nat) : Option C :=
  match s.slot (handle &&& (s.slotSize - 1)) with
  | some e => if e.handle = handle then some e.ctx else none
  | none => none

/-- `skynet_handle_retire`; the loop keeps the names of other handles. -/
def retire (handle : Nat) : Storage C × Bool :=
  if (s.grab handle).isSome then
    ({ s with
      slot := Function.update s.slot (handle &&& (s.slotSize - 1)) none
      names := s.names.filter fun x => x.2 ≠ handle }, true)
  else (s, false)

/-- `skynet_handle_findname`. -/
def findname (name : Bytes) : Nat := (Bisect.get s.names name).getD 0

/-- `skynet_handle_namehandle`, with whether it returns the name. -/
def namehandle (handle : Nat) (name : Bytes) : Storage C × Bool :=
  match Bisect.insert s.names name handle with
  | some names => ({ s with names := names }, true)
  | none => (s, false)

end Storage

inductive Event (C : Type) where
  | register (ctx : C)
  | write (handle : Nat)
  | retire (handle : Nat)
  | grab (handle : Nat)
  | namehandle (handle : Nat) (name : Bytes)
  | findname (name : Bytes)

inductive Output (C : Type) where
  | handle (handle : Nat)
  | flag (ok : Bool)
  | context (ctx : Option C)
  | written
  | aborted

namespace Storage
variable {C : Type} (s : Storage C)

def step : Event C → Option (Storage C × Output C)
  | .register ctx =>
      match s.register ctx with
      | some (s, handle) => some (s, .handle handle)
      | none => some (s, .aborted)
  | .write handle => if s.pending handle then some (s.write handle, .written) else none
  | .retire handle => some ((s.retire handle).1, .flag (s.retire handle).2)
  | .grab handle => some (s, .context (s.grab handle))
  | .namehandle handle name =>
      some ((s.namehandle handle name).1, .flag (s.namehandle handle name).2)
  | .findname name => some (s, .handle (s.findname name))

/-- Every context in the table knows its handle. -/
def settled : Bool := (List.range s.slotSize).all fun i => (s.slot i).all Entry.written

/-- What the storage needs of its callers: while one has not written its handle, no other fills
the table and doubles it, which would look for the handle in the context; and nobody asks for
handle 0, which is the one of such a context. -/
def contract : Event C → Bool
  | .register _ => (s.probe s.slotSize s.handleIndex).isSome || s.settled
  | .retire handle | .grab handle => handle != 0 || s.settled
  | .write _ | .namehandle _ _ | .findname _ => true

end Storage

def machine {C : Type} (harbor : Nat) : Machine (Storage C) (Event C) (Output C) where
  init := .init harbor
  step := Storage.step

end Qiuqiu.Server.Handle
