import OpenSniffer.FramePrints
import OpenSniffer.LabelledRuns

/-!
# The program: its reader, its loop and the interrupt

`main` installs its handler, registers the dissectors, opens the socket and reads frames
until it is interrupted. Its steps and the interrupt may come in any order. Whatever the
order is, what it prints is the text of the frames that it has received, in that order. An
interrupt kills the program before the handler is there, is lost from then on until the loop
starts, ends the program with a failure while it waits for a frame, and otherwise ends the
loop after at most one more frame.
-/
namespace OpenSniffer.SnifferRuns
open Packets OsiStack MainStack FramePrints Encapsulation LabelledRuns

/-- What the reader uses of the circular linked list, for elements of any kind. An iteration
goes on as long as the iterator returns 0. -/
class NodeList (Element : Type) where
  Nodes : Type
  Node : Type
  listCreateStatic : Nodes
  listPushBack : Nodes → Element → Nodes
  listFindNodeIf : Nodes → (Element → Bool) → Option Node
  listRemoveNode : Nodes → Option Node → Nodes
  listIterateOverNodes : Nodes → (Element → List Line × ℕ) → List Line
  elements : Nodes → List Element
  elements_listCreateStatic : elements listCreateStatic = []
  elements_listPushBack : ∀ list e, elements (listPushBack list e) = elements list ++ [e]
  elements_listRemoveNode : ∀ list p, (∃ e ∈ elements list, p e = true) →
    elements (listRemoveNode list (listFindNodeIf list p)) = (elements list).eraseP p
  listIterateOverNodes_zero : ∀ list f, (∀ e, (f e).2 = 0) →
    listIterateOverNodes list f = (elements list).flatMap fun e => (f e).1

/-- Lists with their own operations are such lists; a node is its place. -/
@[reducible] def plainNodes (Element : Type) : NodeList Element where
  Nodes := List Element
  Node := ℕ
  listCreateStatic := []
  listPushBack list e := list ++ [e]
  listFindNodeIf list p := list.findIdx? p
  listRemoveNode list node := node.elim list list.eraseIdx
  listIterateOverNodes list f := list.flatMap fun e => (f e).1
  elements := id
  elements_listCreateStatic := rfl
  elements_listPushBack _ _ := rfl
  elements_listRemoveNode list p _ := by
    rw [id_eq, id_eq, List.eraseP_eq_eraseIdx]
    cases list.findIdx? p <;> rfl
  listIterateOverNodes_zero _ _ _ := rfl

structure SyncReader (PacketCallback PacketInterceptor : Type) [NodeList PacketCallback]
    [NodeList PacketInterceptor] where
  fd : ℕ
  callbackList : NodeList.Nodes PacketCallback
  interceptorList : NodeList.Nodes PacketInterceptor

section Reader
variable {PacketCallback PacketInterceptor : Type} [NodeList PacketCallback] [NodeList PacketInterceptor]

def syncReaderCreate (fd : ℕ) : SyncReader PacketCallback PacketInterceptor :=
  ⟨fd, NodeList.listCreateStatic, NodeList.listCreateStatic⟩

def syncReaderAddPacketCallback (reader : SyncReader PacketCallback PacketInterceptor)
    (callback : PacketCallback) : SyncReader PacketCallback PacketInterceptor :=
  { reader with callbackList := NodeList.listPushBack reader.callbackList callback }

def pointerComparator [DecidableEq PacketCallback] (data element : PacketCallback) : Bool := data == element

def syncReaderRemovePacketCallback [DecidableEq PacketCallback]
    (reader : SyncReader PacketCallback PacketInterceptor) (callback : PacketCallback) :
    SyncReader PacketCallback PacketInterceptor :=
  { reader with
    callbackList := NodeList.listRemoveNode reader.callbackList
      (NodeList.listFindNodeIf reader.callbackList (pointerComparator callback)) }

/-- The iterator calls back and returns 0. -/
def notifyIterator (call : PacketCallback → List Line) (callback : PacketCallback) : List Line × ℕ :=
  (call callback, 0)

def notifyPacket (reader : SyncReader PacketCallback PacketInterceptor)
    (call : PacketCallback → List Line) : List Line :=
  NodeList.listIterateOverNodes reader.callbackList (notifyIterator call)

def callbacks (reader : SyncReader PacketCallback PacketInterceptor) : List PacketCallback :=
  NodeList.elements reader.callbackList

private theorem callbacks_create (fd : ℕ) :
    callbacks (syncReaderCreate fd : SyncReader PacketCallback PacketInterceptor) = [] :=
  NodeList.elements_listCreateStatic

private theorem callbacks_add (reader : SyncReader PacketCallback PacketInterceptor) (callback : PacketCallback) :
    callbacks (syncReaderAddPacketCallback reader callback) = callbacks reader ++ [callback] :=
  NodeList.elements_listPushBack _ _

private theorem callbacks_remove [DecidableEq PacketCallback] (reader : SyncReader PacketCallback PacketInterceptor)
    {callback : PacketCallback} (h : callback ∈ callbacks reader) :
    callbacks (syncReaderRemovePacketCallback reader callback) = (callbacks reader).erase callback := by
  have hp : ∃ e ∈ NodeList.elements reader.callbackList, pointerComparator callback e = true :=
    ⟨callback, h, beq_self_eq_true callback⟩
  have herase := NodeList.elements_listRemoveNode reader.callbackList (pointerComparator callback) hp
  rw [List.erase_eq_eraseP]
  exact herase

/-- Everyone who is registered is called back, in the order of registration. -/
theorem notifyPacket_eq (reader : SyncReader PacketCallback PacketInterceptor)
    (call : PacketCallback → List Line) : notifyPacket reader call = (callbacks reader).flatMap call :=
  NodeList.listIterateOverNodes_zero _ _ fun _ => rfl

end Reader

def packetSize : ℕ := 1024

def exitFailure : ℕ := 1

/-- The callbacks of the program. -/
inductive PacketCallback where
  | onNewPacket
  deriving DecidableEq

/-- The program has no interceptors. -/
inductive PacketInterceptor

section Program
variable [Memory] [CircularLinkedList] [NodeList PacketCallback] [NodeList PacketInterceptor]

abbrev Reader := SyncReader PacketCallback PacketInterceptor

def packetLines (stack : Stack) (time : String) (packet : Packet) : List Line :=
  (osiDumpPacketTrace stack packet).flatMap (printed time)

def PacketCallback.call (stack : Stack) (time : String) (packet : Packet) : PacketCallback → List Line
  | .onNewPacket => packetLines stack time packet

/-- Where `main` is in its loop. -/
inductive Activity where
  | testing
  | allocating
  | receiving
  | notifying (lines : List Line)

/-- Where `main` is. The stack and the reader are there once they have been made. A program
that is killed has no status. -/
inductive Phase where
  | intercepting
  | loading (stack : Stack) (rest : List Dissector)
  | opening (stack : Stack)
  | creating (stack : Stack) (fd : ℕ)
  | starting (stack : Stack) (reader : Reader)
  | reading (stack : Stack) (reader : Reader) (activity : Activity)
  | clearing (stack : Stack) (reader : Reader)
  | closing (reader : Reader)
  | exited (status : ℕ)
  | killed

/-- A turn of the program: a call may be answered with a descriptor, a frame at a time of
day, or a failure. -/
inductive Turn where
  | opened (fd : ℕ)
  | frame (time : String) (bytes : Bytes)
  | failure
  | proceed

inductive Input where
  | interrupt
  | turn (t : Turn)

structure Sniffer where
  phase : Phase
  started : Bool
  buffers : ℕ
  descriptors : List ℕ
  output : List Line

def start : Sniffer := ⟨.intercepting, false, 0, [], []⟩

def sighandler (s : Sniffer) : Sniffer := { s with started := false }

/-- What SIGINT does. Before `sigaction` has returned it kills the program. The call that
waits for a frame is not restarted behind the handler, so it fails. -/
def interrupt (s : Sniffer) : Option Sniffer :=
  match s.phase with
  | .exited _ | .killed => none
  | .intercepting => some { s with phase := .killed }
  | .reading _ _ .receiving => some { sighandler s with phase := .exited exitFailure }
  | _ => some (sighandler s)

/-- `sync_reader_read`, from the allocation of its buffer to the release. -/
def syncReaderRead (s : Sniffer) (stack : Stack) (reader : Reader) (len : ℕ) : Activity → Turn → Option Sniffer
  | .allocating, .proceed => some { s with buffers := s.buffers + 1, phase := .reading stack reader .receiving }
  | .receiving, .frame time bytes =>
    let packet := Packet.ofFrame (bytes.take len)
    some { s with phase := .reading stack reader (.notifying (notifyPacket reader (PacketCallback.call stack time packet))) }
  | .receiving, .failure => some { s with phase := .exited exitFailure }
  | .notifying (line :: lines), .proceed =>
    some { s with output := s.output ++ [line], phase := .reading stack reader (.notifying lines) }
  | .notifying [], .proceed => some { s with buffers := s.buffers - 1, phase := .reading stack reader .testing }
  | _, _ => none

def advance (s : Sniffer) (t : Turn) : Option Sniffer :=
  match s.phase, t with
  | .intercepting, .proceed => some { s with phase := .loading osiStackNew mainOrder }
  | .loading stack (d :: rest), .proceed => some { s with phase := .loading (osiRegisterDissector stack d) rest }
  | .loading stack [], .proceed => some { s with phase := .opening stack }
  | .opening stack, .opened fd => some { s with descriptors := fd :: s.descriptors, phase := .creating stack fd }
  | .opening _, .failure => some { s with phase := .exited exitFailure }
  | .creating stack fd, .proceed =>
    some { s with phase := .starting stack (syncReaderAddPacketCallback (syncReaderCreate fd) .onNewPacket) }
  | .starting stack reader, .proceed => some { s with started := true, phase := .reading stack reader .testing }
  | .reading stack reader .testing, .proceed =>
    some { s with phase := if s.started then .reading stack reader .allocating else .clearing stack reader }
  | .reading stack reader activity, t => syncReaderRead s stack reader packetSize activity t
  | .clearing _ reader, .proceed => some { s with phase := .closing (syncReaderRemovePacketCallback reader .onNewPacket) }
  | .closing reader, .proceed => some { s with descriptors := s.descriptors.erase reader.fd, phase := .exited 0 }
  | .closing _, .failure => some { s with phase := .exited exitFailure }
  | _, _ => none

def step (s : Sniffer) : Input → Option Sniffer
  | .interrupt => interrupt s
  | .turn t => advance s t

/-- The lines that a frame will have printed. -/
def Turn.lines : Turn → List Line
  | .frame time bytes => packetLines mainStack time (Packet.ofFrame (bytes.take packetSize))
  | _ => []

def Input.lines : Input → List Line
  | .interrupt => []
  | .turn t => t.lines

def Sniffer.pending (s : Sniffer) : List Line :=
  match s.phase with
  | .reading _ _ (.notifying lines) => lines
  | _ => []

def Sniffer.text (s : Sniffer) : List Line := s.output ++ s.pending

/-- What the program has and holds at each of its places. -/
def Keeps (s : Sniffer) : Prop :=
  match s.phase with
  | .intercepting | .killed => s.buffers = 0 ∧ s.descriptors = []
  | .loading stack rest => rest.foldl osiRegisterDissector stack = mainStack ∧ s.buffers = 0 ∧ s.descriptors = []
  | .opening stack => stack = mainStack ∧ s.buffers = 0 ∧ s.descriptors = []
  | .creating stack fd => stack = mainStack ∧ s.buffers = 0 ∧ s.descriptors = [fd]
  | .starting stack reader =>
    stack = mainStack ∧ callbacks reader = [.onNewPacket] ∧ s.buffers = 0 ∧ s.descriptors = [reader.fd]
  | .reading stack reader activity =>
    stack = mainStack ∧ callbacks reader = [.onNewPacket] ∧ s.descriptors = [reader.fd] ∧
      s.buffers = match activity with | .testing | .allocating => 0 | _ => 1
  | .clearing stack reader =>
    stack = mainStack ∧ callbacks reader = [.onNewPacket] ∧ s.buffers = 0 ∧ s.descriptors = [reader.fd]
  | .closing reader => callbacks reader = [] ∧ s.buffers = 0 ∧ s.descriptors = [reader.fd]
  | .exited status => status = 0 → s.buffers = 0 ∧ s.descriptors = []

theorem keeps_start : Keeps start := ⟨rfl, rfl⟩

/-- An interrupt changes nothing of what the program has, but it may end it. -/
theorem interrupt_keeps {s s' : Sniffer} (hs : Keeps s) (h : interrupt s = some s') :
    Keeps s' ∧ s'.text = s.text := by
  obtain ⟨phase, started, buffers, descriptors, output⟩ := s
  cases phase with
  | reading stack reader activity =>
    cases activity with
    | receiving =>
      cases h
      exact ⟨fun h => absurd h (by decide), rfl⟩
    | _ =>
      cases h
      exact ⟨hs, rfl⟩
  | exited status => cases h
  | killed => cases h
  | _ =>
    cases h
    exact ⟨hs, rfl⟩

private theorem syncReaderRead_keeps {s s' : Sniffer} {stack : Stack} {reader : Reader} {activity : Activity} {t : Turn}
    (hphase : s.phase = .reading stack reader activity) (hs : Keeps s)
    (h : syncReaderRead s stack reader packetSize activity t = some s') : Keeps s' ∧ s'.text = s.text ++ t.lines := by
  obtain ⟨phase, started, buffers, descriptors, output⟩ := s
  obtain rfl : phase = .reading stack reader activity := hphase
  obtain ⟨rfl, hcallbacks, hdescriptors, hbuffers⟩ := hs
  cases activity with
  | testing => cases t <;> cases h
  | allocating =>
    cases t <;> cases h
    exact ⟨⟨rfl, hcallbacks, hdescriptors, congrArg (· + 1) hbuffers⟩, (List.append_nil _).symm⟩
  | receiving =>
    cases t with
    | frame time bytes =>
      cases h
      refine ⟨⟨rfl, hcallbacks, hdescriptors, hbuffers⟩, ?_⟩
      simp [Sniffer.text, Sniffer.pending, Turn.lines, notifyPacket_eq, hcallbacks, PacketCallback.call]
    | failure =>
      cases h
      exact ⟨fun h => absurd h (by decide), (List.append_nil _).symm⟩
    | _ => cases h
  | notifying lines =>
    cases lines with
    | nil =>
      cases t <;> cases h
      exact ⟨⟨rfl, hcallbacks, hdescriptors, congrArg (· - 1) hbuffers⟩, (List.append_nil _).symm⟩
    | cons line lines =>
      cases t <;> cases h
      refine ⟨⟨rfl, hcallbacks, hdescriptors, hbuffers⟩, ?_⟩
      simp [Sniffer.text, Sniffer.pending, Turn.lines]

private theorem advance_keeps {s s' : Sniffer} {t : Turn} (hs : Keeps s) (h : advance s t = some s') :
    Keeps s' ∧ s'.text = s.text ++ t.lines := by
  obtain ⟨phase, started, buffers, descriptors, output⟩ := s
  cases phase with
  | intercepting =>
    cases t <;> cases h
    exact ⟨⟨rfl, hs⟩, (List.append_nil _).symm⟩
  | loading stack rest =>
    obtain ⟨hstack, hheld⟩ := hs
    cases rest with
    | nil =>
      cases t <;> cases h
      exact ⟨⟨hstack, hheld⟩, (List.append_nil _).symm⟩
    | cons d rest =>
      cases t <;> cases h
      exact ⟨⟨hstack, hheld⟩, (List.append_nil _).symm⟩
  | opening stack =>
    obtain ⟨rfl, hbuffers, hdescriptors⟩ := hs
    cases t with
    | opened fd =>
      cases h
      exact ⟨⟨rfl, hbuffers, congrArg (List.cons fd) hdescriptors⟩, (List.append_nil _).symm⟩
    | failure =>
      cases h
      exact ⟨fun h => absurd h (by decide), (List.append_nil _).symm⟩
    | _ => cases h
  | creating stack fd =>
    obtain ⟨rfl, hbuffers, hdescriptors⟩ := hs
    cases t <;> cases h
    refine ⟨⟨rfl, ?_, hbuffers, hdescriptors⟩, (List.append_nil _).symm⟩
    rw [callbacks_add, callbacks_create, List.nil_append]
  | starting stack reader =>
    obtain ⟨rfl, hcallbacks, hbuffers, hdescriptors⟩ := hs
    cases t <;> cases h
    exact ⟨⟨rfl, hcallbacks, hdescriptors, hbuffers⟩, (List.append_nil _).symm⟩
  | reading stack reader activity =>
    by_cases htesting : activity = .testing ∧ t = .proceed
    · obtain ⟨rfl, rfl⟩ := htesting
      obtain ⟨rfl, hcallbacks, hdescriptors, hbuffers⟩ := hs
      cases h
      cases started
      · exact ⟨⟨rfl, hcallbacks, hbuffers, hdescriptors⟩, (List.append_nil _).symm⟩
      · exact ⟨⟨rfl, hcallbacks, hdescriptors, hbuffers⟩, (List.append_nil _).symm⟩
    · refine syncReaderRead_keeps rfl hs ?_
      cases activity <;> cases t <;> first
        | exact h
        | exact absurd ⟨rfl, rfl⟩ htesting
  | clearing stack reader =>
    obtain ⟨rfl, hcallbacks, hbuffers, hdescriptors⟩ := hs
    cases t <;> cases h
    refine ⟨⟨?_, hbuffers, hdescriptors⟩, (List.append_nil _).symm⟩
    rw [callbacks_remove reader (by simp [hcallbacks]), hcallbacks, List.erase_cons_head]
  | closing reader =>
    obtain ⟨hcallbacks, hbuffers, hdescriptors⟩ := hs
    cases t with
    | failure =>
      cases h
      exact ⟨fun h => absurd h (by decide), (List.append_nil _).symm⟩
    | proceed =>
      cases h
      refine ⟨fun _ => ⟨hbuffers, ?_⟩, (List.append_nil _).symm⟩
      obtain rfl : descriptors = [reader.fd] := hdescriptors
      exact @List.erase_cons_head ℕ _ _ reader.fd []
    | _ => cases h
  | exited status => cases t <;> cases h
  | killed => cases t <;> cases h

theorem step_keeps {s s' : Sniffer} {i : Input} (hs : Keeps s) (h : step s i = some s') :
    Keeps s' ∧ s'.text = s.text ++ i.lines := by
  cases i with
  | interrupt =>
    obtain ⟨hkeeps, htext⟩ := interrupt_keeps hs h
    exact ⟨hkeeps, htext.trans (List.append_nil _).symm⟩
  | turn t => exact advance_keeps hs h

/-- Whatever happens in whatever order, the text is that of the frames, in order, each up to
its first 1024 bytes; and one who ends well has written all of it and holds nothing. -/
theorem sniffer_prints {inputs : List Input} {s : Sniffer} (h : run step start inputs = some s) :
    s.text = inputs.flatMap Input.lines ∧
      (s.phase = .exited 0 → s.output = s.text ∧ s.buffers = 0 ∧ s.descriptors = []) := by
  have hkeeps : ∀ s i s', Keeps s → step s i = some s' → Keeps s' :=
    fun _ _ _ hs h => (step_keeps hs h).1
  have htext := run_adds hkeeps (fun _ _ _ hs h => (step_keeps hs h).2) h keeps_start
  have hend := run_rule hkeeps h keeps_start
  refine ⟨htext, ?_⟩
  intro hexited
  rw [Keeps, hexited] at hend
  refine ⟨?_, hend rfl⟩
  rw [Sniffer.text, Sniffer.pending, hexited, List.append_nil]

end Program

def opening : List Input :=
  List.replicate 11 (.turn .proceed) ++ [.turn (.opened 3), .turn .proceed, .turn .proceed]

/-- A frame is waited for, received, and printed line by line. -/
def passing [Memory] [CircularLinkedList] (time : String) (bytes : Bytes) : List Input :=
  [.turn .proceed, .turn .proceed, .turn (.frame time bytes)] ++
    List.replicate ((Turn.frame time bytes).lines.length + 1) (.turn .proceed)

/-- An interrupt between two frames, and the rest of `main`. -/
def leaving : List Input := .interrupt :: List.replicate 3 (.turn .proceed)

/-- A segment, and a frame of more bytes than the buffer has. -/
def twoFrames [Memory] [CircularLinkedList] : List Input :=
  opening ++ passing "" (encapsulate loopbackEthernet (loopbackIp 41) (.tcp acknowledgement) [1]) ++
    passing "" (List.replicate 1030 1) ++ leaving

def Sniffer.finished [CircularLinkedList] [NodeList PacketCallback] [NodeList PacketInterceptor]
    (s : Sniffer) : Bool :=
  match s.phase with
  | .exited 0 => true
  | _ => false

theorem exists_finished [Memory] [CircularLinkedList] [NodeList PacketCallback] [NodeList PacketInterceptor]
    {inputs : List Input} (h : (run step start inputs).any Sniffer.finished = true) :
    ∃ s, run step start inputs = some s ∧ s.phase = .exited 0 := by
  obtain ⟨s, hrun, hfinished⟩ := (Option.any_eq_true _ _).mp h
  refine ⟨s, hrun, ?_⟩
  rw [Sniffer.finished] at hfinished
  split at hfinished
  · assumption
  · cases hfinished

theorem sniffer_prints_twoFrames : let _ := zeroMemory; let _ := plainList
    let _ := plainNodes PacketCallback; let _ := plainNodes PacketInterceptor
    ∃ s, run step start twoFrames = some s ∧ s.output = twoFrames.flatMap Input.lines ∧ s.buffers = 0 ∧
      s.descriptors = [] := by
  intro _ _ _ _
  obtain ⟨s, hrun, hphase⟩ := exists_finished (show (run step start twoFrames).any Sniffer.finished = true by decide +kernel)
  obtain ⟨htext, hend⟩ := sniffer_prints hrun
  obtain ⟨houtput, hbuffers, hdescriptors⟩ := hend hphase
  exact ⟨s, hrun, houtput.trans htext, hbuffers, hdescriptors⟩

section Interrupts
variable [Memory] [CircularLinkedList] [NodeList PacketCallback] [NodeList PacketInterceptor]

def Sniffer.Waiting (s : Sniffer) : Prop := ∃ stack reader, s.phase = .reading stack reader .receiving

/-- The loop runs. -/
def Sniffer.Looping (s : Sniffer) : Prop :=
  s.started = true ∧ ∃ stack reader activity, s.phase = .reading stack reader activity

/-- The handler is there, and the loop has not started yet. -/
def Sniffer.Early (s : Sniffer) : Prop :=
  match s.phase with
  | .loading _ _ | .opening _ | .creating _ _ | .starting _ _ => True
  | _ => False

def Sniffer.Handled (s : Sniffer) : Prop :=
  match s.phase with
  | .intercepting | .killed => False
  | _ => True

def Sniffer.Ended (s : Sniffer) : Prop :=
  match s.phase with
  | .exited _ | .killed => True
  | _ => False

/-- The loop runs only to its next test, or has ended. -/
def Sniffer.Leaving (s : Sniffer) : Prop :=
  match s.phase with
  | .reading _ _ _ => s.started = false
  | .clearing _ _ | .closing _ | .exited _ => True
  | _ => False

def Sniffer.framesLeft (s : Sniffer) : ℕ :=
  match s.phase with
  | .reading _ _ .allocating | .reading _ _ .receiving => 1
  | _ => 0

def Input.frames : Input → ℕ
  | .turn (.frame _ _) => 1
  | _ => 0

/-- From there on the loop is not taken up again, and at most the frame that is already
waited for is received. -/
theorem step_leaving {s s' : Sniffer} {i : Input} (hs : s.Leaving) (h : step s i = some s') :
    s'.Leaving ∧ i.frames + s'.framesLeft ≤ s.framesLeft := by
  obtain ⟨phase, started, buffers, descriptors, output⟩ := s
  cases phase with
  | reading stack reader activity =>
    obtain rfl : started = false := hs
    rcases activity with _ | _ | _ | ⟨_ | ⟨line, lines⟩⟩ <;> rcases i with _ | _ | _ | _ | _ <;> cases h <;>
      simp [Sniffer.Leaving, Sniffer.framesLeft, Input.frames, sighandler]
  | clearing stack reader =>
    rcases i with _ | _ | _ | _ | _ <;> cases h <;> simp [Sniffer.Leaving, Sniffer.framesLeft, Input.frames, sighandler]
  | closing reader =>
    rcases i with _ | _ | _ | _ | _ <;> cases h <;> simp [Sniffer.Leaving, Sniffer.framesLeft, Input.frames, sighandler]
  | exited status => rcases i with _ | _ | _ | _ | _ <;> cases h
  | _ => cases hs

/-- Only an interrupt that finds the loop at work, and not waiting, makes it end. -/
theorem step_leaves {s s' : Sniffer} {i : Input} (hs : ¬ s.Leaving) (h : step s i = some s') (hs' : s'.Leaving) :
    (∃ status, s'.phase = .exited status) ∨ (i = .interrupt ∧ s.Looping ∧ ¬ s.Waiting) := by
  obtain ⟨phase, started, buffers, descriptors, output⟩ := s
  cases phase with
  | intercepting => rcases i with _ | _ | _ | _ | _ <;> cases h <;> cases hs'
  | loading stack rest =>
    rcases rest with _ | ⟨d, rest⟩ <;> rcases i with _ | _ | _ | _ | _ <;> cases h <;> cases hs'
  | opening stack =>
    rcases i with _ | _ | _ | _ | _ <;> cases h
    · cases hs'
    · cases hs'
    · exact .inl ⟨_, rfl⟩
  | creating stack fd => rcases i with _ | _ | _ | _ | _ <;> cases h <;> cases hs'
  | starting stack reader => rcases i with _ | _ | _ | _ | _ <;> cases h <;> cases hs'
  | reading stack reader activity =>
    obtain rfl : started = true := (Bool.eq_false_or_eq_true started).resolve_right hs
    cases i with
    | interrupt =>
      cases activity with
      | receiving =>
        cases h
        exact .inl ⟨_, rfl⟩
      | _ => exact .inr ⟨rfl, ⟨rfl, stack, reader, _, rfl⟩, by simp [Sniffer.Waiting]⟩
    | turn t =>
      rcases activity with _ | _ | _ | ⟨_ | ⟨line, lines⟩⟩ <;> cases t <;> cases h <;> first
        | exact .inl ⟨_, rfl⟩
        | cases hs'
  | killed => rcases i with _ | _ | _ | _ | _ <;> cases h
  | _ => exact absurd trivial hs

/-- The status is 0 behind the loop; it is that of a failure where a call fails or the
interrupt finds the program waiting. -/
theorem step_exits {s s' : Sniffer} {i : Input} {status : ℕ} (h : step s i = some s')
    (hs' : s'.phase = .exited status) : (status = 0 ∧ ∃ reader, s.phase = .closing reader) ∨
      (status = exitFailure ∧ (i = .turn .failure ∨ (i = .interrupt ∧ s.Waiting))) := by
  obtain ⟨phase, started, buffers, descriptors, output⟩ := s
  cases phase with
  | loading stack rest =>
    rcases rest with _ | ⟨d, rest⟩ <;> rcases i with _ | _ | _ | _ | _ <;> cases h <;> cases hs'
  | opening stack =>
    rcases i with _ | _ | _ | _ | _ <;> cases h <;> cases hs'
    exact .inr ⟨rfl, .inl rfl⟩
  | closing reader =>
    rcases i with _ | _ | _ | _ | _ <;> cases h <;> cases hs'
    · exact .inr ⟨rfl, .inl rfl⟩
    · exact .inl ⟨rfl, reader, rfl⟩
  | reading stack reader activity =>
    cases activity with
    | receiving =>
      rcases i with _ | _ | _ | _ | _ <;> cases h <;> cases hs'
      · exact .inr ⟨rfl, .inr ⟨rfl, stack, reader, rfl⟩⟩
      · exact .inr ⟨rfl, .inl rfl⟩
    | testing =>
      rcases i with _ | _ | _ | _ | _ <;> cases h
      · cases hs'
      · cases started <;> cases hs'
    | allocating => rcases i with _ | _ | _ | _ | _ <;> cases h <;> cases hs'
    | notifying lines =>
      rcases lines with _ | ⟨line, lines⟩ <;> rcases i with _ | _ | _ | _ | _ <;> cases h <;> cases hs'
  | _ => rcases i with _ | _ | _ | _ | _ <;> cases h <;> cases hs'

/-- Nothing happens behind the end. -/
theorem run_ended {s s' : Sniffer} {inputs : List Input} (hs : s.Ended) (h : run step s inputs = some s') :
    inputs = [] ∧ s' = s := by
  cases inputs with
  | nil =>
    cases h
    exact ⟨rfl, rfl⟩
  | cons i inputs =>
    obtain ⟨s₁, hstep, -⟩ := run_cons_iff.mp h
    obtain ⟨phase, started, buffers, descriptors, output⟩ := s
    cases phase with
    | exited status => rcases i with _ | _ | _ | _ | _ <;> cases hstep
    | killed => rcases i with _ | _ | _ | _ | _ <;> cases hstep
    | _ => cases hs

omit [Memory] in
theorem ended_of_exited {s : Sniffer} {status : ℕ} (hs : s.phase = .exited status) : s.Ended := by
  rw [Sniffer.Ended, hs]
  trivial

/-- The handler stays. -/
theorem step_handled {s s' : Sniffer} {i : Input} (hs : s.Handled) (h : step s i = some s') : s'.Handled := by
  obtain ⟨phase, started, buffers, descriptors, output⟩ := s
  cases phase with
  | loading stack rest =>
    rcases rest with _ | ⟨d, rest⟩ <;> rcases i with _ | _ | _ | _ | _ <;> cases h <;> trivial
  | reading stack reader activity =>
    rcases activity with _ | _ | _ | ⟨_ | ⟨line, lines⟩⟩ <;> rcases i with _ | _ | _ | _ | _ <;> cases h <;>
      first
      | trivial
      | (cases started <;> trivial)
  | intercepting => cases hs
  | killed => cases hs
  | _ => rcases i with _ | _ | _ | _ | _ <;> cases h <;> trivial

/-- Only an interrupt at the very start kills the program. -/
theorem inputs_of_killed {inputs : List Input} {s : Sniffer} (h : run step start inputs = some s)
    (hs : s.phase = .killed) : inputs = [.interrupt] := by
  cases inputs with
  | nil =>
    cases h
    cases hs
  | cons i inputs =>
    obtain ⟨s₁, hstep, hrest⟩ := run_cons_iff.mp h
    rcases i with _ | _ | _ | _ | _ <;> cases hstep
    · rw [(run_ended (s := { start with phase := .killed }) trivial hrest).1]
    · have hhandled := run_rule (P := Sniffer.Handled) (fun _ _ _ hs h => step_handled hs h) hrest trivial
      rw [Sniffer.Handled, hs] at hhandled
      cases hhandled

omit [Memory] in
private theorem framesLeft_le (s : Sniffer) : s.framesLeft ≤ 1 := by
  rw [Sniffer.framesLeft]
  split <;> simp

private theorem run_leaving {s s' : Sniffer} {inputs : List Input} (hs : s.Leaving) (h : run step s inputs = some s') :
    (inputs.map Input.frames).sum ≤ 1 := by
  have hkeeps : ∀ s i s', s.Leaving → step s i = some s' → s'.Leaving := fun _ _ _ hs h => (step_leaving hs h).1
  have hpays := run_pays hkeeps (fun _ _ _ hs h => (step_leaving hs h).2) h hs
  have hle := framesLeft_le s
  omega

private theorem exits {inputs : List Input} {s : Sniffer} {status : ℕ} (h : run step start inputs = some s)
    (hs : s.phase = .exited status) :
    (status = 0 ∧ ∃ before after s₁, inputs = before ++ .interrupt :: after ∧ run step start before = some s₁ ∧
      s₁.Looping ∧ ¬ s₁.Waiting ∧ (after.map Input.frames).sum ≤ 1) ∨
    (status = exitFailure ∧ ∃ before i s₁, inputs = before ++ [i] ∧ run step start before = some s₁ ∧
      (i = .turn .failure ∨ (i = .interrupt ∧ s₁.Waiting))) := by
  have hstart : ¬ (start.phase = .exited status) := by simp [start]
  obtain ⟨before, i, after, s₁, s₂, rfl, hbefore, hstep, hafter, -, hs₂⟩ :=
    run_turns (P := fun s => s.phase = .exited status) h hstart hs
  obtain ⟨rfl, -⟩ := run_ended (ended_of_exited hs₂) hafter
  rcases step_exits hstep hs₂ with ⟨rfl, reader, hclosing⟩ | ⟨rfl, hcause⟩
  · refine .inl ⟨rfl, ?_⟩
    have hleaving : s₁.Leaving := by simp [Sniffer.Leaving, hclosing]
    obtain ⟨before', i', after', s₃, s₄, rfl, hbefore', hleaves, hafter', hnot, hs₄⟩ :=
      run_turns (P := Sniffer.Leaving) hbefore id hleaving
    have hrest : run step s₄ (after' ++ [i]) = some s₂ :=
      run_append_iff.mpr ⟨s₁, hafter', run_cons_iff.mpr ⟨s₂, hstep, rfl⟩⟩
    rcases step_leaves hnot hleaves hs₄ with ⟨status, hexited⟩ | ⟨rfl, hlooping, hwaiting⟩
    · obtain ⟨-, rfl⟩ := run_ended (ended_of_exited hexited) hafter'
      rw [hclosing] at hexited
      cases hexited
    · refine ⟨before', after' ++ [i], s₃, ?_, hbefore', hlooping, hwaiting, run_leaving hs₄ hrest⟩
      rw [List.append_assoc, List.cons_append]
  · exact .inr ⟨rfl, before, i, s₁, rfl, hbefore, hcause⟩

/-- How a run ends: with status 0 only if an interrupt found the loop at work and not waiting,
and then at most one more frame was received; with status 1 if a call failed or an interrupt
found the program waiting, and that was the end; killed only by an interrupt before anything
else. -/
theorem sniffer_exits {inputs : List Input} {s : Sniffer} (h : run step start inputs = some s) (hs : s.Ended) :
    (s.phase = .exited 0 ∧ ∃ before after s₁, inputs = before ++ .interrupt :: after ∧
      run step start before = some s₁ ∧ s₁.Looping ∧ ¬ s₁.Waiting ∧ (after.map Input.frames).sum ≤ 1) ∨
    (s.phase = .exited exitFailure ∧ ∃ before i s₁, inputs = before ++ [i] ∧ run step start before = some s₁ ∧
      (i = .turn .failure ∨ (i = .interrupt ∧ s₁.Waiting))) ∨
    (s.phase = .killed ∧ inputs = [.interrupt]) := by
  cases hphase : s.phase with
  | exited status =>
    rcases exits h hphase with ⟨rfl, hend⟩ | ⟨rfl, hend⟩
    · exact .inl ⟨rfl, hend⟩
    · exact .inr (.inl ⟨rfl, hend⟩)
  | killed => exact .inr (.inr ⟨rfl, inputs_of_killed h hphase⟩)
  | _ =>
    rw [Sniffer.Ended, hphase] at hs
    cases hs

/-- They differ in `started` only, and only where it does not matter. -/
def Alike (s t : Sniffer) : Prop :=
  s = t ∨ (s = { t with started := s.started } ∧ (t.Early ∨ ∃ status, t.phase = .exited status))

private theorem step_alike {s t s' : Sniffer} {i : Input} (hst : Alike s t) (h : step s i = some s') :
    ∃ t', step t i = some t' ∧ Alike s' t' := by
  rcases hst with rfl | ⟨hs, hearly | ⟨status, hexited⟩⟩
  · exact ⟨s', h, .inl rfl⟩
  · rw [hs] at h
    obtain ⟨phase, started, buffers, descriptors, output⟩ := t
    cases phase with
    | loading stack rest =>
      rcases rest with _ | ⟨d, rest⟩ <;> rcases i with _ | _ | _ | _ | _ <;> cases h <;>
        exact ⟨_, rfl, .inr ⟨rfl, .inl trivial⟩⟩
    | opening stack =>
      rcases i with _ | _ | _ | _ | _ <;> cases h
      · exact ⟨_, rfl, .inr ⟨rfl, .inl trivial⟩⟩
      · exact ⟨_, rfl, .inr ⟨rfl, .inl trivial⟩⟩
      · exact ⟨_, rfl, .inr ⟨rfl, .inr ⟨_, rfl⟩⟩⟩
    | creating stack fd =>
      rcases i with _ | _ | _ | _ | _ <;> cases h <;> exact ⟨_, rfl, .inr ⟨rfl, .inl trivial⟩⟩
    | starting stack reader =>
      rcases i with _ | _ | _ | _ | _ <;> cases h
      · exact ⟨_, rfl, .inr ⟨rfl, .inl trivial⟩⟩
      · exact ⟨_, rfl, .inl rfl⟩
    | _ => cases hearly
  · have hphase := congrArg Sniffer.phase hs
    have hone : run step s [i] = some s' := run_cons_iff.mpr ⟨s', h, rfl⟩
    cases (run_ended (ended_of_exited (hphase.trans hexited)) hone).1

/-- An interrupt before the loop has started is lost: `main` overwrites what it has stored. -/
theorem interrupt_lost {before after : List Input} {s₁ s : Sniffer} (hbefore : run step start before = some s₁)
    (hearly : s₁.Early) (h : run step start (before ++ .interrupt :: after) = some s) :
    ∃ s', run step start (before ++ after) = some s' ∧ Alike s s' := by
  obtain ⟨s₂, hbefore', hrest⟩ := run_append_iff.mp h
  obtain rfl : s₁ = s₂ := Option.some.inj (hbefore.symm.trans hbefore')
  obtain ⟨s₃, hstep, hafter⟩ := run_cons_iff.mp hrest
  have halike : Alike s₃ s₁ := by
    obtain ⟨phase, started, buffers, descriptors, output⟩ := s₁
    cases phase <;> first
      | (cases hstep; exact .inr ⟨rfl, .inl trivial⟩)
      | exact hearly.elim
  have hmirrors : ∀ s t i s', Alike s t → step s i = some s' → ∃ t', step t i = some t' ∧ Alike s' t' :=
    fun _ _ _ _ hst h => step_alike hst h
  obtain ⟨s', hrun, hs'⟩ := run_mirrors hmirrors hafter halike
  exact ⟨s', run_append_iff.mpr ⟨s₁, hbefore, hrun⟩, hs'⟩

end Interrupts

theorem sniffer_exits_interrupted : let _ := zeroMemory; let _ := plainList
    let _ := plainNodes PacketCallback; let _ := plainNodes PacketInterceptor
    let inputs := opening ++ leaving
    ∃ before after s₁, inputs = before ++ .interrupt :: after ∧ run step start before = some s₁ ∧
      s₁.Looping ∧ ¬ s₁.Waiting ∧ (after.map Input.frames).sum ≤ 1 := by
  intro _ _ _ _ inputs
  have hinputs : (run step start (opening ++ leaving)).any Sniffer.finished = true := by decide +kernel
  obtain ⟨s, hrun, hphase⟩ := exists_finished hinputs
  rcases sniffer_exits hrun (ended_of_exited hphase) with ⟨-, hend⟩ | ⟨hfailed, -⟩ | ⟨hkilled, -⟩
  · exact hend
  · rw [hphase] at hfailed
    cases hfailed
  · rw [hphase] at hkilled
    cases hkilled

theorem interrupt_lost_first : let _ := zeroMemory; let _ := plainList
    let _ := plainNodes PacketCallback; let _ := plainNodes PacketInterceptor
    ∃ s s', run step start ([.turn .proceed] ++ .interrupt :: (opening.drop 1 ++ leaving)) = some s ∧
      run step start ([.turn .proceed] ++ (opening.drop 1 ++ leaving)) = some s' ∧ Alike s s' := by
  intro _ _ _ _
  have hinputs : (run step start ([.turn .proceed] ++ .interrupt :: (opening.drop 1 ++ leaving))).any
      Sniffer.finished = true := by decide +kernel
  obtain ⟨s, hrun, -⟩ := exists_finished hinputs
  obtain ⟨s', hrun', halike⟩ := @interrupt_lost _ _ _ _ [.turn .proceed] _ _ _ rfl trivial hrun
  exact ⟨s, s', hrun, hrun', halike⟩

end OpenSniffer.SnifferRuns
