import OpenSniffer.Packets

/-!
# The OSI stack: registering dissectors and walking a packet through the layers

The walk is the recursion of `osi.c`. It threads a ghost world that numbers the
packets in the order they are allocated and records every event: which packet is
looked up at which layer, what is decapsulated, dumped and destroyed. Number 0 is
the caller's packet.
-/
namespace OpenSniffer.OsiStack
open Packets

def osiLayer1 : ℕ := 1
def osiLayer2 : ℕ := 2
def osiLayer3 : ℕ := 3
def osiLayer7 : ℕ := 7

structure Dissector where
  layer : ℕ
  name : String
  handles : Packet → Bool
  decapsulate : Packet → Option Packet
  dump : Packet → List Line

/-- The circular linked list is a submodule whose code is not in the repository.
These are the operations the stack uses, with the facts it relies on: a zeroed list
is empty, `list_push_back` appends, and `list_find_node_if` returns the first node
that satisfies the predicate. -/
class CircularLinkedList where
  Dissectors : Type
  zeroed : Dissectors
  listPushBack : Dissectors → Dissector → Dissectors
  listFindNodeIf : Dissectors → (Dissector → Bool) → Option Dissector
  nodes : Dissectors → List Dissector
  nodes_zeroed : nodes zeroed = []
  nodes_listPushBack : ∀ list d, nodes (listPushBack list d) = nodes list ++ [d]
  listFindNodeIf_first : ∀ list p, listFindNodeIf list p = (nodes list).find? p

/-- Lists with their own append and search are such a submodule. -/
@[reducible] def plainList : CircularLinkedList where
  Dissectors := List Dissector
  zeroed := []
  listPushBack list d := list ++ [d]
  listFindNodeIf list p := list.find? p
  nodes := id
  nodes_zeroed := rfl
  nodes_listPushBack _ _ := rfl
  listFindNodeIf_first _ _ := rfl

/-- A packet as the walk holds it: its allocation and its content. -/
structure Ref where
  id : ℕ
  packet : Packet

inductive Event where
  | header (size : ℕ)
  | find (layer : ℕ) (packet : Ref) (dissector : Option Dissector)
  | decapsulate (dissector : Dissector) (packet : Ref) (result : Option Ref)
  | dump (dissector : Dissector) (packet : Ref)
  | destroy (packet : Ref)
  | footer

structure World where
  next : ℕ
  trace : List Event

abbrev Walk := StateM World

def record (e : Event) : Walk Unit := modify fun w => { w with trace := w.trace ++ [e] }

theorem walk_pure {α : Type} (a : α) (w : World) : (pure a : Walk α) w = (a, w) := rfl

theorem walk_bind {α β : Type} (x : Walk α) (f : α → Walk β) (w : World) :
    (x >>= f) w = f (x w).1 (x w).2 := rfl

theorem walk_record (e : Event) (w : World) :
    record e w = ((), { w with trace := w.trace ++ [e] }) := rfl

/-- Call a `decapsulate`. The packet it returns, if any, is a fresh allocation. -/
def callDecapsulate (dissector : Dissector) (packet : Ref) : Walk (Option Ref) := do
  let w ← get
  let result := (dissector.decapsulate packet.packet).map (⟨w.next, ·⟩)
  if result.isSome then
    set { w with next := w.next + 1 }
  record (.decapsulate dissector packet result)
  return result

theorem callDecapsulate_run (d : Dissector) (packet : Ref) (w : World) :
    callDecapsulate d packet w =
      let result := (d.decapsulate packet.packet).map (⟨w.next, ·⟩)
      (result, ⟨if result.isSome then w.next + 1 else w.next,
        w.trace ++ [.decapsulate d packet result]⟩) := by
  cases h : d.decapsulate packet.packet <;> simp only [callDecapsulate, h] <;> rfl

section Stack
variable [CircularLinkedList]

abbrev Stack := CircularLinkedList.Dissectors

def osiStackNew : Stack := CircularLinkedList.zeroed

def osiRegisterDissector (stack : Stack) (dissector : Dissector) : Stack :=
  CircularLinkedList.listPushBack stack dissector

def findDissectorByPacket (packet : Packet) (layer : ℕ) (dissector : Dissector) : Bool :=
  dissector.layer == layer && dissector.handles packet

def osiFindDissectorByPacket (stack : Stack) (packet : Packet) (layer : ℕ) : Option Dissector :=
  CircularLinkedList.listFindNodeIf stack (findDissectorByPacket packet layer)

def osiDumpPacketByLayer (stack : Stack) (packet : Ref) (layer : ℕ) : Walk (Option Ref) := do
  let dissector := osiFindDissectorByPacket stack packet.packet layer
  record (.find layer packet dissector)
  match dissector with
  | some d =>
    let p ← callDecapsulate d packet
    record (.dump d packet)
    return p
  | none => return none

def osiDestroyPacket (packet : Ref) : Walk Unit := record (.destroy packet)

def osiDumpPacketRecursive (stack : Stack) (packet : Ref) (layer : ℕ) : Walk Unit := do
  if layer > osiLayer7 then
    return
  else
    match ← osiDumpPacketByLayer stack packet layer with
    | some p =>
      osiDumpPacketRecursive stack p (layer + 1)
      osiDestroyPacket p
    | none => osiDumpPacketRecursive stack packet (layer + 1)
termination_by osiLayer7 + 1 - layer

def osiDumpPacket (stack : Stack) (packet : Ref) : Walk Unit := do
  record (.header packet.packet.size)
  match ← osiDumpPacketByLayer stack packet osiLayer1 with
  | some p =>
    osiDumpPacketRecursive stack p osiLayer2
    osiDestroyPacket p
  | none => pure ()
  record .footer

def osiDumpPacketTrace (stack : Stack) (packet : Packet) : List Event :=
  (osiDumpPacket stack ⟨0, packet⟩ ⟨1, []⟩).2.trace

end Stack

def dumps (trace : List Event) : List (Dissector × Ref) :=
  trace.filterMap fun
    | .dump d packet => some (d, packet)
    | _ => none

def finds (trace : List Event) : List (ℕ × Ref × Option Dissector) :=
  trace.filterMap fun
    | .find layer packet dissector => some (layer, packet, dissector)
    | _ => none

/-- The number of a packet that an event passes to a dissector, creates or frees. -/
def Event.Mentions (id : ℕ) : Event → Prop
  | .find _ packet _ => packet.id = id
  | .decapsulate _ packet result => packet.id = id ∨ ∃ r ∈ result, r.id = id
  | .dump _ packet => packet.id = id
  | .destroy packet => packet.id = id
  | _ => False

def Event.Destroys (id : ℕ) : Event → Prop
  | .destroy packet => packet.id = id
  | _ => False

end OpenSniffer.OsiStack
