import OnePass.Fault

/-!
# Instruction streams

The instructions of a program in order. Every instruction stands in a slot under a number that is never used
again, with links to the instructions before and after it. The first one is a sentinel. Besides growing at its
end, a stream can be changed at a cursor: an instruction can be put before it, and the one after it can be
removed. A removed instruction keeps its slot but has no links.

* `Stream.toList` — the instructions in order, the view of a stream;
* `Stream.append`, `insertBefore`, `deleteAfter` — the operations that change the order;
* `Stream.findBackward?` — the last instruction with a property;
* `Stream.range` — the numbers from one instruction to another.
-/

namespace OnePass

/-- An instruction under its number. -/
structure Entry where
  id : Nat
  instruction : Instruction
deriving Repr, Inhabited

/-- An instruction with the numbers of its neighbours. -/
structure Slot where
  instruction : Instruction
  prev : Option Nat
  next : Option Nat
deriving Repr, Inhabited

structure Stream where
  slots : Array Slot
  tail : Nat
  cursor : Nat
  length : Nat
deriving Repr, Inhabited

namespace Stream

def start : Stream :=
  { slots := #[⟨{ kind := .programStart, scope := 0, frame := .global }, none, none⟩]
    tail := 0
    cursor := 0
    length := 1 }

def issued (stream : Stream) : Nat := stream.slots.size

def get? (stream : Stream) (id : Nat) : Option Instruction := stream.slots[id]?.map (·.instruction)

def next? (stream : Stream) (id : Nat) : Option Nat := stream.slots[id]?.bind (·.next)

def prev? (stream : Stream) (id : Nat) : Option Nat := stream.slots[id]?.bind (·.prev)

/-! ### Following the links -/

def walk (slots : Array Slot) (link : Slot → Option Nat) : Nat → Option Nat → List Entry
  | fuel + 1, some id =>
      match slots[id]? with
      | some slot => ⟨id, slot.instruction⟩ :: walk slots link fuel (link slot)
      | none => []
  | _, _ => []

def toList (stream : Stream) : List Entry := walk stream.slots Slot.next stream.issued (some 0)

def backward (stream : Stream) : List Entry := walk stream.slots Slot.prev stream.issued (some stream.tail)

def ids (stream : Stream) : List Nat := stream.toList.map (·.id)

def findBackward? (stream : Stream) (test : Entry → Bool) : Option Nat :=
  (stream.backward.find? test).map (·.id)

def takeThrough (last : Nat) : List Nat → List Nat
  | [] => []
  | id :: rest => if id = last then [id] else id :: takeThrough last rest

def range (stream : Stream) (first last : Nat) : List Nat :=
  takeThrough last ((walk stream.slots Slot.next stream.issued (some first)).map (·.id))

/-! ### Changing the order -/

def linkNext (slots : Array Slot) (id : Nat) (next : Option Nat) : Array Slot :=
  slots.modify id ({ · with next })

def linkPrev (slots : Array Slot) (id : Nat) (prev : Option Nat) : Array Slot :=
  slots.modify id ({ · with prev })

def append (stream : Stream) (instruction : Instruction) : Stream × Nat :=
  let id := stream.issued
  let slots := stream.slots.push ⟨instruction, some stream.tail, none⟩
  ({ stream with
      slots := linkNext slots stream.tail (some id)
      tail := id
      length := stream.length + 1 },
    id)

def setCursor (stream : Stream) (id : Nat) : Stream := { stream with cursor := id }

def insertBefore (stream : Stream) (instruction : Instruction) : Except Diagnostic (Stream × Nat) :=
  match stream.prev? stream.cursor with
  | some prev =>
      let id := stream.issued
      let slots := stream.slots.push ⟨instruction, some prev, some stream.cursor⟩
      let slots := linkNext slots prev (some id)
      .ok ({ stream with
              slots := linkPrev slots stream.cursor (some id)
              length := stream.length + 1 },
        id)
  | none => .error { fault := .insertBeforeStart }

def unlink (stream : Stream) (target : Nat) (next : Option Nat) : Stream :=
  let slots := linkNext stream.slots stream.cursor next
  let slots := match next with
    | some next => linkPrev slots next (some stream.cursor)
    | none => slots
  { stream with
    slots := linkNext (linkPrev slots target none) target none
    tail := if next.isSome then stream.tail else stream.cursor
    length := stream.length - 1 }

def deleteAfter (stream : Stream) : Except Diagnostic (Stream × Instruction) :=
  match (stream.next? stream.cursor).bind fun target => (target, ·) <$> stream.slots[target]? with
  | some (target, slot) => .ok (stream.unlink target slot.next, slot.instruction)
  | none => .error { fault := .nothingToDelete }

/-! ### Changing instructions in place -/

def modify (stream : Stream) (ids : List Nat) (change : Instruction → Instruction) : Stream :=
  let update (id : Nat) (slot : Slot) : Slot :=
    if ids.contains id then { slot with instruction := change slot.instruction } else slot
  { stream with slots := stream.slots.mapIdx update }

end Stream

end OnePass
