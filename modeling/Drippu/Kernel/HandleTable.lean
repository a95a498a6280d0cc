import Drippu.Library.IntrusiveList
import Drippu.Library.Transition

/-!
# Kernel - The handle table

A handle table maps handles to objects.  A handle packs the index of an entry and a linear
id that tells the uses of the entry apart.  The words of an entry that is not in use link
the free entries; those of an entry with an object hold its linear id.
-/

namespace Drippu.Kernel

open Library Function

/-! ## Handles -/

/-- `Handle`: 15 bits of index, 15 bits of linear id and two reserved bits. -/
abbrev Handle := BitVec 32

namespace Handle

def index (handle : Handle) : Nat := handle.toNat % 2 ^ 15

def linearId (handle : Handle) : Nat := handle.toNat / 2 ^ 15 % 2 ^ 15

def reserved (handle : Handle) : Nat := handle.toNat / 2 ^ 30

/-- `EncodeHandle`. -/
def encode (index linearId : Nat) : Handle :=
  BitVec.ofNat 32 (index % 2 ^ 15 + linearId % 2 ^ 15 * 2 ^ 15)

def currentThread : Handle := 0xFFFF8000#32

def currentProcess : Handle := 0xFFFF8001#32

def isPseudoHandle (handle : Handle) : Bool :=
  handle == currentProcess || handle == currentThread

end Handle

/-! ## The table -/

inductive HandleTableResult where
  | outOfMemory
  | outOfHandles
  deriving DecidableEq, Repr

/-- `entryInfos i` is the word of an entry: a linear id or, as a signed number, the next
free index. -/
structure HandleTable (O : Type) where
  entryInfos : Nat → BitVec 16
  objects : Nat → Option O
  freeHeadIndex : Int
  tableSize : Nat
  maxCount : Nat
  nextLinearId : Nat
  count : Nat

namespace HandleTable

variable {O : Type}

def maxTableSize : Nat := 1024

def minLinearId : Nat := 1

def maxLinearId : Nat := 0x7FFF

variable (t : HandleTable O)

def getLinearId (index : Nat) : Nat := (t.entryInfos index).toNat

def getNextFreeIndex (index : Nat) : Int := (t.entryInfos index).toInt

/-- The fields that `Initialize` sets for every entry. -/
def initializeEntry (i : Nat) : HandleTable O :=
  { t with
    objects := update t.objects i none
    entryInfos := update t.entryInfos i (BitVec.ofInt 16 (i - 1))
    freeHeadIndex := i }

/-- `Initialize`. -/
def initializeTable (size : Int) : Except HandleTableResult (HandleTable O) :=
  if size ≤ maxTableSize then
    let t := { t with
      maxCount := 0
      tableSize := if size ≤ 0 then maxTableSize else size.toNat
      nextLinearId := minLinearId
      count := 0
      freeHeadIndex := -1 }
    .ok ((List.range t.tableSize).foldl initializeEntry t)
  else .error .outOfMemory

/-! ## Entries -/

/-- The head of the free list is an index when there is a free entry. -/
def allocateEntry : Option (Nat × HandleTable O) :=
  if 0 ≤ t.freeHeadIndex ∧ t.freeHeadIndex < maxTableSize then
    let index := t.freeHeadIndex.toNat
    let count := (t.count + 1) % 2 ^ 16
    some (index, { t with
      freeHeadIndex := t.getNextFreeIndex index
      count := count
      maxCount := max t.maxCount count })
  else none

def freeEntry (index : Nat) : HandleTable O :=
  { t with
    objects := update t.objects index none
    entryInfos := update t.entryInfos index (BitVec.ofInt 16 t.freeHeadIndex)
    freeHeadIndex := index
    count := (t.count + (2 ^ 16 - 1)) % 2 ^ 16 }

def allocateLinearId : Nat × HandleTable O :=
  let next := (t.nextLinearId + 1) % 2 ^ 16
  (t.nextLinearId, { t with nextLinearId := if maxLinearId < next then minLinearId else next })

/-- An object is stored with the linear id of its handle. -/
def setEntry (index linearId : Nat) (obj : O) : HandleTable O :=
  { t with
    entryInfos := update t.entryInfos index (BitVec.ofNat 16 linearId)
    objects := update t.objects index (some obj) }

def isValidHandle (handle : Handle) : Bool :=
  if handle = 0#32 then false
  else if handle.linearId = 0 then false
  else if t.tableSize ≤ handle.index then false
  else if (t.objects handle.index).isNone then false
  else if t.getLinearId handle.index ≠ handle.linearId then false
  else true

def getObjectImpl (handle : Handle) : Option O :=
  if handle.reserved ≠ 0 then none
  else if t.isValidHandle handle then t.objects handle.index
  else none

def getObjectByIndexImpl (index : Nat) : Option (Handle × O) :=
  if t.tableSize ≤ index then none
  else (t.objects index).map fun obj => (Handle.encode index (t.getLinearId index), obj)

/-! ## Operations -/

/-- The object that is closed, if the handle is removed. -/
def remove (handle : Handle) : HandleTable O × Option O :=
  if handle.isPseudoHandle then (t, none)
  else if handle.reserved ≠ 0 then (t, none)
  else if t.isValidHandle handle then (t.freeEntry handle.index, t.objects handle.index)
  else (t, none)

def add (obj : O) : Option (HandleTable O × Except HandleTableResult Handle) :=
  if t.count < t.tableSize then
    let (linearId, t) := t.allocateLinearId
    t.allocateEntry.map fun (index, t) =>
      (t.setEntry index linearId obj, .ok (Handle.encode index linearId))
  else some (t, .error .outOfHandles)

def reserve : Option (HandleTable O × Except HandleTableResult Handle) :=
  if t.count < t.tableSize then
    t.allocateEntry.map fun (index, t) =>
      let (linearId, t) := t.allocateLinearId
      (t, .ok (Handle.encode index linearId))
  else some (t, .error .outOfHandles)

/-- The linear id is not checked. -/
def unreserve (handle : Handle) : HandleTable O :=
  if handle.index < t.tableSize then t.freeEntry handle.index else t

def register (handle : Handle) (obj : O) : HandleTable O :=
  if handle.index < t.tableSize then t.setEntry handle.index handle.linearId obj else t

end HandleTable

/-! ## Sessions -/

/-- A table next to the outstanding reservations and, for every handle, the object that it was
last returned for, unless it was removed since. -/
structure Session (O : Type) where
  table : HandleTable O
  reservations : List Handle
  returned : Handle → Option O

inductive HandleCall (O : Type) where
  | add (obj : O)
  | reserve
  | register (handle : Handle) (obj : O)
  | unreserve (handle : Handle)
  | remove (handle : Handle)

namespace Session

variable {O : Type} (s : Session O)

/-- Reservations are registered or given back while they are outstanding. -/
def Allowed : HandleCall O → Prop
  | .register handle _ | .unreserve handle => handle ∈ s.reservations
  | _ => True

def call : HandleCall O → Option (Session O)
  | .add obj => s.table.add obj |>.map fun (t, r) =>
    match r with
    | .ok handle =>
      { s with table := t, returned := update s.returned handle (some obj) }
    | .error _ => { s with table := t }
  | .reserve => s.table.reserve |>.map fun (t, r) =>
    match r with
    | .ok handle => { s with table := t, reservations := handle :: s.reservations }
    | .error _ => { s with table := t }
  | .register handle obj => some {
      table := s.table.register handle obj
      reservations := s.reservations.erase handle
      returned := update s.returned handle (some obj) }
  | .unreserve handle => some { s with
      table := s.table.unreserve handle
      reservations := s.reservations.erase handle }
  | .remove handle => some { s with
      table := (s.table.remove handle).1
      returned := update s.returned handle none }

/-- An initialised table and the allowed calls. -/
def system : TransitionSystem (Session O) where
  init s := (∃ t size, HandleTable.initializeTable t size = .ok s.table) ∧ s.reservations = [] ∧
    ∀ handle, s.returned handle = none
  step s s' := ∃ c, s.Allowed c ∧ s.call c = some s'

/-- An entry has an object or is reserved. -/
def allocated (i : Nat) : Bool :=
  (s.table.objects i).isSome || s.reservations.any fun handle => handle.index = i

/-- The reserved handles and the handles of the entries with objects. -/
def liveHandles : List Handle :=
  s.reservations ++
    (List.range s.table.tableSize).filterMap fun i => (s.table.getObjectByIndexImpl i).map Prod.fst

end Session
end Drippu.Kernel
