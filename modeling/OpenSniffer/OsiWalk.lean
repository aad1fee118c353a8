import OpenSniffer.OsiStack
import Mathlib.Data.List.Chain
import Mathlib.Data.List.Pairwise

/-!
# What the walk does, layer by layer

The abstract walk is a list of visits: which packet is current at a layer and which
dissector takes it. The recursion of `osi.c` refines it: its events are the visits'
events in order, followed by the destruction of the packets they created, the last
created first.
-/
namespace OpenSniffer.OsiWalk
open Packets OsiStack

structure Visit where
  layer : ℕ
  packet : Ref
  taker : Option Dissector

namespace Visit

/-- The packet decapsulated at this layer, if any. It is the next one allocated. -/
def result (v : Visit) : Option Ref :=
  (v.taker.bind (·.decapsulate v.packet.packet)).map (⟨v.packet.id + 1, ·⟩)

/-- The packet current at the next layer. -/
def after (v : Visit) : Ref := v.result.getD v.packet

def dumped (v : Visit) : Option (Dissector × Ref) := v.taker.map (·, v.packet)

theorem dumped_eq_some {v : Visit} {d : Dissector} {p : Ref} :
    v.dumped = some (d, p) ↔ v.taker = some d ∧ v.packet = p := by simp [dumped]

def events (v : Visit) : List Event :=
  .find v.layer v.packet v.taker ::
    v.taker.elim [] fun d => [.decapsulate d v.packet v.result, .dump d v.packet]

theorem result_id {v : Visit} {r : Ref} (h : v.result = some r) : r.id = v.packet.id + 1 := by
  simp only [result, Option.map_eq_some_iff] at h
  obtain ⟨p, -, rfl⟩ := h
  rfl

theorem after_of_result {v : Visit} {r : Ref} (h : v.result = some r) : v.after = r := by
  simp [after, h]

theorem after_of_no_result {v : Visit} (h : v.result = none) : v.after = v.packet := by
  simp [after, h]

end Visit

def created (route : List Visit) : List Ref := route.filterMap Visit.result

theorem created_cons_of_no_result {v : Visit} (h : v.result = none) (route : List Visit) :
    created (v :: route) = created route := by simp [created, h]

theorem created_cons_of_result {v : Visit} {r : Ref} (h : v.result = some r) (route : List Visit) :
    created (v :: route) = r :: created route := by simp [created, h]

private theorem finds_events (v : Visit) : finds v.events = [(v.layer, v.packet, v.taker)] := by
  cases h : v.taker <;> simp [finds, Visit.events, h]

private theorem dumps_events (v : Visit) : dumps v.events = v.dumped.toList := by
  cases h : v.taker <;> simp [dumps, Visit.events, Visit.dumped, h]

private theorem finds_flatMap_events (route : List Visit) :
    finds (route.flatMap Visit.events) = route.map (fun v => (v.layer, v.packet, v.taker)) := by
  induction route with
  | nil => rfl
  | cons v route ih =>
    have hv := finds_events v
    simp only [finds] at hv ih ⊢
    rw [List.flatMap_cons, List.filterMap_append, hv, ih]
    rfl

private theorem dumps_flatMap_events (route : List Visit) :
    dumps (route.flatMap Visit.events) = route.filterMap Visit.dumped := by
  induction route with
  | nil => rfl
  | cons v route ih =>
    have hv := dumps_events v
    simp only [dumps] at hv ih ⊢
    rw [List.flatMap_cons, List.filterMap_append, hv, ih]
    cases h : v.dumped <;> simp [h]

theorem not_destroys_of_mem_events {v : Visit} {e : Event} (he : e ∈ v.events) (id : ℕ) :
    ¬ e.Destroys id := by
  cases h : v.taker with
  | none =>
    simp only [Visit.events, h, Option.elim_none, List.mem_singleton] at he
    subst he
    exact not_false
  | some d =>
    simp only [Visit.events, h, Option.elim_some, List.mem_cons, List.not_mem_nil, or_false] at he
    rcases he with rfl | rfl | rfl <;> exact not_false

private theorem mem_created_iff {route : List Visit} {r : Ref} :
    r ∈ created route ↔ ∃ v ∈ route, ∃ d, Event.decapsulate d v.packet (some r) ∈ v.events := by
  simp only [created, List.mem_filterMap]
  constructor
  · intro hcreated
    obtain ⟨v, hv, hr⟩ := hcreated
    refine ⟨v, hv, ?_⟩
    cases h : v.taker with
    | none => simp [Visit.result, h] at hr
    | some d => exact ⟨d, by simp [Visit.events, h, hr]⟩
  · intro hevent
    obtain ⟨v, hv, d, hd⟩ := hevent
    refine ⟨v, hv, ?_⟩
    cases h : v.taker with
    | none => simp [Visit.events, h] at hd
    | some d' =>
      simp only [Visit.events, h, Option.elim_some, List.mem_cons, List.not_mem_nil, reduceCtorEq,
        Event.decapsulate.injEq, or_false, false_or] at hd
      exact hd.2.2.symm

section Stack
variable [CircularLinkedList]

def visit (stack : Stack) (layer : ℕ) (packet : Ref) : Visit :=
  ⟨layer, packet, osiFindDissectorByPacket stack packet.packet layer⟩

@[simp] theorem visit_layer (stack : Stack) (layer : ℕ) (packet : Ref) :
    (visit stack layer packet).layer = layer := rfl
@[simp] theorem visit_packet (stack : Stack) (layer : ℕ) (packet : Ref) :
    (visit stack layer packet).packet = packet := rfl
@[simp] theorem visit_taker (stack : Stack) (layer : ℕ) (packet : Ref) :
    (visit stack layer packet).taker = osiFindDissectorByPacket stack packet.packet layer := rfl

def visitsFrom (stack : Stack) : ℕ → ℕ → Ref → List Visit
  | 0, _, _ => []
  | n + 1, layer, packet =>
    visit stack layer packet :: visitsFrom stack n (layer + 1) (visit stack layer packet).after

def firstVisit (stack : Stack) (packet : Packet) : Visit := visit stack osiLayer1 ⟨0, packet⟩

theorem visitsFrom_succ_of_no_result {stack : Stack} {layer : ℕ} {packet : Ref} (n : ℕ)
    (h : (visit stack layer packet).result = none) : visitsFrom stack (n + 1) layer packet =
      visit stack layer packet :: visitsFrom stack n (layer + 1) packet := by
  rw [visitsFrom, Visit.after_of_no_result h, visit_packet]

theorem visitsFrom_succ_of_result {stack : Stack} {layer : ℕ} {packet p : Ref} (n : ℕ)
    (h : (visit stack layer packet).result = some p) : visitsFrom stack (n + 1) layer packet =
      visit stack layer packet :: visitsFrom stack n (layer + 1) p := by
  rw [visitsFrom, Visit.after_of_result h]

/-- Layer 1 and, if it decapsulates a packet, layers 2 to 7. -/
def visits (stack : Stack) (packet : Packet) : List Visit :=
  firstVisit stack packet ::
    (firstVisit stack packet).result.elim [] (visitsFrom stack (osiLayer7 - osiLayer1) osiLayer2)

theorem visits_of_no_result {stack : Stack} {packet : Packet}
    (h : (firstVisit stack packet).result = none) :
    visits stack packet = [firstVisit stack packet] := by simp [visits, h]

theorem visits_of_result {stack : Stack} {packet : Packet} {p : Ref}
    (h : (firstVisit stack packet).result = some p) :
    visits stack packet = firstVisit stack packet :: visitsFrom stack 6 osiLayer2 p := by
  simp [visits, h, osiLayer1, osiLayer7]

theorem osiDumpPacketByLayer_run (stack : Stack) (packet : Ref) (layer : ℕ) (trace : List Event) :
    osiDumpPacketByLayer stack packet layer ⟨packet.id + 1, trace⟩ =
      let v := visit stack layer packet
      (v.result, ⟨v.after.id + 1, trace ++ v.events⟩) := by
  simp only [osiDumpPacketByLayer, visit, Visit.result, Visit.after, Visit.events, walk_bind,
    walk_record]
  cases osiFindDissectorByPacket stack packet.packet layer with
  | none => simp [walk_pure]
  | some d =>
    simp only [walk_bind, walk_record, walk_pure, callDecapsulate_run]
    cases h : d.decapsulate packet.packet <;> simp [h]

/-- From layer `layer` on, the recursion makes the visits' events and then destroys
what they created, innermost first. -/
theorem osiDumpPacketRecursive_trace (stack : Stack) (n layer : ℕ) (hn : layer + n = osiLayer7 + 1)
    (packet : Ref) (trace : List Event) :
    (osiDumpPacketRecursive stack packet layer ⟨packet.id + 1, trace⟩).2.trace =
      trace ++ (visitsFrom stack n layer packet).flatMap Visit.events ++
        (created (visitsFrom stack n layer packet)).reverse.map Event.destroy := by
  induction n generalizing layer packet trace with
  | zero =>
    rw [osiDumpPacketRecursive, if_pos (by omega)]
    simp [visitsFrom, created, walk_pure]
  | succ n ih =>
    rw [osiDumpPacketRecursive, if_neg (by omega), walk_bind, osiDumpPacketByLayer_run]
    cases h : (visit stack layer packet).result with
    | none =>
      have hrec := ih (layer + 1) (by omega) packet (trace ++ (visit stack layer packet).events)
      rw [visitsFrom_succ_of_no_result n h, created_cons_of_no_result h]
      simpa [h, Visit.after_of_no_result h] using hrec
    | some p =>
      have hrec := ih (layer + 1) (by omega) p (trace ++ (visit stack layer packet).events)
      rw [visitsFrom_succ_of_result n h, created_cons_of_result h]
      simp only [h, walk_bind, osiDestroyPacket, walk_record, Visit.after_of_result h, hrec]
      simp

theorem osiDumpPacketTrace_eq (stack : Stack) (packet : Packet) :
    osiDumpPacketTrace stack packet = Event.header packet.size ::
      ((visits stack packet).flatMap Visit.events ++
        (created (visits stack packet)).reverse.map Event.destroy ++ [.footer]) := by
  have hfirst : osiDumpPacketByLayer stack ⟨0, packet⟩ osiLayer1 ⟨1, [.header packet.size]⟩ =
      ((firstVisit stack packet).result, ⟨(firstVisit stack packet).after.id + 1,
        [.header packet.size] ++ (firstVisit stack packet).events⟩) :=
    osiDumpPacketByLayer_run stack ⟨0, packet⟩ osiLayer1 [.header packet.size]
  simp only [osiDumpPacketTrace, osiDumpPacket, walk_bind, walk_record, List.nil_append, hfirst]
  cases h : (firstVisit stack packet).result with
  | none =>
    simp only [walk_record]
    simp [visits_of_no_result h, created, h]
  | some p =>
    have hrec := osiDumpPacketRecursive_trace stack 6 osiLayer2 rfl p
      ([.header packet.size] ++ (firstVisit stack packet).events)
    simp only [walk_bind, walk_record, osiDestroyPacket, Visit.after_of_result h, hrec]
    simp [visits_of_result h, created, h]

private theorem visitsFrom_layers (stack : Stack) (n layer : ℕ) (packet : Ref) :
    (visitsFrom stack n layer packet).map Visit.layer = List.range' layer n := by
  induction n generalizing layer packet with
  | zero => rfl
  | succ n ih => simp [visitsFrom, List.range'_succ, ih, visit]

private theorem visitsFrom_taker (stack : Stack) (n layer : ℕ) (packet : Ref) :
    ∀ v ∈ visitsFrom stack n layer packet,
      v.taker = osiFindDissectorByPacket stack v.packet.packet v.layer := by
  induction n generalizing layer packet with
  | zero => simp [visitsFrom]
  | succ n ih =>
    intro v hv
    rcases List.mem_cons.mp hv with rfl | hv
    · rfl
    · exact ih _ _ v hv

/-- Each visit is to the packet the visit before it leaves. -/
def Follows (v v' : Visit) : Prop := v'.layer = v.layer + 1 ∧ v'.packet = v.after

private theorem visitsFrom_follows (stack : Stack) (n layer : ℕ) (packet : Ref) :
    (visitsFrom stack n layer packet).IsChain Follows := by
  induction n generalizing layer packet with
  | zero => exact List.isChain_nil
  | succ n ih =>
    cases n with
    | zero => exact List.isChain_singleton _
    | succ n => exact List.isChain_cons_cons.mpr ⟨⟨rfl, rfl⟩, ih _ _⟩

private theorem visits_follows (stack : Stack) (packet : Packet) :
    (visits stack packet).IsChain Follows := by
  cases h : (firstVisit stack packet).result with
  | none =>
    rw [visits_of_no_result h]
    exact List.isChain_singleton _
  | some p =>
    have hp : (firstVisit stack packet).after = p := Visit.after_of_result h
    rw [visits_of_result h]
    exact List.isChain_cons_cons.mpr ⟨⟨rfl, hp.symm⟩, visitsFrom_follows stack 6 osiLayer2 p⟩

private theorem visits_taker (stack : Stack) (packet : Packet) :
    ∀ v ∈ visits stack packet, v.taker = osiFindDissectorByPacket stack v.packet.packet v.layer := by
  intro v hv
  rcases List.mem_cons.mp hv with rfl | hv
  · rfl
  · cases h : (firstVisit stack packet).result with
    | none => simp [h] at hv
    | some p => exact visitsFrom_taker stack _ _ p v (by simpa [h] using hv)

/-- Layers 1 to 7 are visited in turn, or layer 1 alone if it yields no packet. -/
theorem visits_layers (stack : Stack) (packet : Packet) :
    (visits stack packet).map Visit.layer =
      if (firstVisit stack packet).result.isSome then List.range' 1 7 else [1] := by
  cases h : (firstVisit stack packet).result with
  | none => simp [visits_of_no_result h, firstVisit, osiLayer1]
  | some p =>
    simp [visits_of_result h, visitsFrom_layers, firstVisit, osiLayer1, osiLayer2, List.range'_succ]

private theorem visits_layer_lt (stack : Stack) (packet : Packet) :
    (visits stack packet).Pairwise (fun v v' => v.layer < v'.layer) := by
  have h : ((visits stack packet).map Visit.layer).Pairwise (· < ·) := by
    rw [visits_layers]
    split
    · exact List.pairwise_lt_range' 1
    · exact List.pairwise_singleton _ _
  exact List.pairwise_map.mp h

omit [CircularLinkedList] in
theorem id_lt_of_mem_cons {n : ℕ} {p : Ref} {rs : List Ref} (hp : n < p.id)
    (hlow : ∀ r ∈ rs, p.id < r.id) : ∀ r ∈ p :: rs, n < r.id := by
  intro r hr
  rcases List.mem_cons.mp hr with rfl | hr
  · exact hp
  · exact hp.trans (hlow r hr)

/-- Allocation numbers grow along a route, so no two created packets share one. -/
theorem visitsFrom_created (stack : Stack) (n layer : ℕ) (packet : Ref) :
    (∀ r ∈ created (visitsFrom stack n layer packet), packet.id < r.id) ∧
      (created (visitsFrom stack n layer packet)).Pairwise (fun r r' => r.id < r'.id) := by
  induction n generalizing layer packet with
  | zero => simp [visitsFrom, created]
  | succ n ih =>
    cases h : (visit stack layer packet).result with
    | none =>
      rw [visitsFrom_succ_of_no_result n h, created_cons_of_no_result h]
      exact ih (layer + 1) packet
    | some p =>
      have hid : p.id = packet.id + 1 := Visit.result_id h
      obtain ⟨hlow, hpair⟩ := ih (layer + 1) p
      rw [visitsFrom_succ_of_result n h, created_cons_of_result h]
      exact ⟨id_lt_of_mem_cons (by omega) hlow, List.pairwise_cons.mpr ⟨hlow, hpair⟩⟩

theorem visits_created (stack : Stack) (packet : Packet) :
    (∀ r ∈ created (visits stack packet), r.id ≠ 0) ∧
      (created (visits stack packet)).Pairwise (fun r r' => r.id < r'.id) := by
  cases h : (firstVisit stack packet).result with
  | none => simp [visits_of_no_result h, created, h]
  | some p =>
    have hid : p.id = 1 := Visit.result_id h
    obtain ⟨hlow, hpair⟩ := visitsFrom_created stack 6 osiLayer2 p
    rw [visits_of_result h, created_cons_of_result h]
    refine ⟨?_, List.pairwise_cons.mpr ⟨hlow, hpair⟩⟩
    intro r hr
    exact Nat.ne_of_gt (id_lt_of_mem_cons (by omega) hlow r hr)

theorem mem_trace {stack : Stack} {packet : Packet} {v : Visit} (hv : v ∈ visits stack packet)
    {e : Event} (he : e ∈ v.events) : e ∈ osiDumpPacketTrace stack packet := by
  rw [osiDumpPacketTrace_eq]
  apply List.mem_cons_of_mem
  apply List.mem_append_left
  apply List.mem_append_left
  exact List.mem_flatMap.mpr ⟨v, hv, he⟩

theorem finds_trace (stack : Stack) (packet : Packet) :
    finds (osiDumpPacketTrace stack packet) =
      (visits stack packet).map (fun v => (v.layer, v.packet, v.taker)) := by
  rw [← finds_flatMap_events, osiDumpPacketTrace_eq]
  simp [finds, List.filterMap_map]

theorem dumps_trace (stack : Stack) (packet : Packet) :
    dumps (osiDumpPacketTrace stack packet) = (visits stack packet).filterMap Visit.dumped := by
  rw [← dumps_flatMap_events, osiDumpPacketTrace_eq]
  simp [dumps, List.filterMap_map]

def Returned (trace : List Event) (r : Ref) : Prop :=
  ∃ d packet, Event.decapsulate d packet (some r) ∈ trace

theorem returned_iff (stack : Stack) (packet : Packet) (r : Ref) :
    Returned (osiDumpPacketTrace stack packet) r ↔ r ∈ created (visits stack packet) := by
  rw [mem_created_iff, Returned, osiDumpPacketTrace_eq]
  simp only [List.mem_cons, List.mem_append, List.mem_flatMap, List.mem_map, List.not_mem_nil,
    reduceCtorEq, and_false, exists_false, or_false, false_or]
  constructor
  · intro hreturned
    obtain ⟨d, p, v, hv, he⟩ := hreturned
    cases h : v.taker with
    | none => simp [Visit.events, h] at he
    | some d' =>
      have hp : p = v.packet := by
        simp only [Visit.events, h, Option.elim_some, List.mem_cons, List.not_mem_nil, reduceCtorEq,
          Event.decapsulate.injEq, or_false, false_or] at he
        exact he.2.1
      exact ⟨v, hv, d, hp ▸ he⟩
  · intro hevent
    obtain ⟨v, hv, d, he⟩ := hevent
    exact ⟨d, v.packet, v, hv, he⟩

/-- The first registered dissector of the visit's layer that accepts its packet takes it. -/
theorem taker_first {stack : Stack} {packet : Packet} {v : Visit} (hv : v ∈ visits stack packet) :
    v.taker = (CircularLinkedList.nodes stack).find? (findDissectorByPacket v.packet.packet v.layer) := by
  rw [visits_taker stack packet v hv]
  exact CircularLinkedList.listFindNodeIf_first _ _

theorem taker_layer {stack : Stack} {packet : Packet} {v : Visit} (hv : v ∈ visits stack packet)
    {d : Dissector} (hd : v.taker = some d) : d.layer = v.layer := by
  rw [taker_first hv] at hd
  have := List.find?_some hd
  simp only [findDissectorByPacket, Bool.and_eq_true, beq_iff_eq] at this
  exact this.1

theorem dumps_layer_lt (stack : Stack) (packet : Packet) :
    (dumps (osiDumpPacketTrace stack packet)).Pairwise (fun a b => a.1.layer < b.1.layer) := by
  rw [dumps_trace, List.pairwise_filterMap]
  refine (visits_layer_lt stack packet).imp_of_mem ?_
  intro v v' hv hv' hlt a ha b hb
  simp only [Visit.dumped, Option.map_eq_some_iff] at ha hb
  obtain ⟨d, hd, rfl⟩ := ha
  obtain ⟨d', hd', rfl⟩ := hb
  rw [taker_layer hv hd, taker_layer hv' hd']
  exact hlt

theorem destroyed_once {stack : Stack} {packet : Packet} {r : Ref}
    (hr : Returned (osiDumpPacketTrace stack packet) r) :
    ∃ before after, osiDumpPacketTrace stack packet = before ++ Event.destroy r :: after ∧
      (∀ e ∈ before, ¬ e.Destroys r.id) ∧ ∀ e ∈ after, ¬ e.Mentions r.id := by
  obtain ⟨older, younger, hsplit⟩ := List.append_of_mem ((returned_iff stack packet r).mp hr)
  have hpair := (visits_created stack packet).2
  rw [hsplit, List.pairwise_append, List.pairwise_cons] at hpair
  obtain ⟨-, ⟨hyounger, -⟩, holder⟩ := hpair
  refine ⟨Event.header packet.size :: ((visits stack packet).flatMap Visit.events ++
    younger.reverse.map Event.destroy), older.reverse.map Event.destroy ++ [.footer], ?_, ?_, ?_⟩
  · rw [osiDumpPacketTrace_eq, hsplit]
    simp
  · intro e he
    rcases List.mem_cons.mp he with rfl | he
    · exact not_false
    rcases List.mem_append.mp he with he | he
    · obtain ⟨v, -, hv⟩ := List.mem_flatMap.mp he
      exact not_destroys_of_mem_events hv r.id
    · obtain ⟨r', hr', rfl⟩ := List.mem_map.mp he
      have := hyounger r' (List.mem_reverse.mp hr')
      simp only [Event.Destroys]
      omega
  · intro e he
    rcases List.mem_append.mp he with he | he
    · obtain ⟨r', hr', rfl⟩ := List.mem_map.mp he
      have := holder r' (List.mem_reverse.mp hr') r List.mem_cons_self
      simp only [Event.Mentions]
      omega
    · rw [List.mem_singleton.mp he]
      exact not_false

theorem destroyed_returned {stack : Stack} {packet : Packet} {r : Ref}
    (hr : Event.destroy r ∈ osiDumpPacketTrace stack packet) :
    Returned (osiDumpPacketTrace stack packet) r ∧ r.id ≠ 0 := by
  have hcreated : r ∈ created (visits stack packet) := by
    rw [osiDumpPacketTrace_eq] at hr
    simp only [List.mem_cons, List.mem_append, List.mem_flatMap, List.mem_map, List.not_mem_nil,
      reduceCtorEq, or_false, false_or, Event.destroy.injEq, exists_eq_right, List.mem_reverse] at hr
    rcases hr with ⟨v, -, he⟩ | hr
    · exact absurd rfl (not_destroys_of_mem_events he r.id)
    · exact hr
  exact ⟨(returned_iff stack packet r).mpr hcreated, (visits_created stack packet).1 r hcreated⟩

/-- What holds of the events of a walk along a route. -/
structure WalkDiscipline (stack : Stack) (packet : Packet) (route : List Visit)
    (trace : List Event) : Prop where
  starts : route.head? = some (visit stack osiLayer1 ⟨0, packet⟩)
  layers : route.map Visit.layer =
    if (visit stack osiLayer1 ⟨0, packet⟩).result.isSome then [1, 2, 3, 4, 5, 6, 7] else [1]
  follows : route.IsChain Follows
  first_accepting : ∀ v ∈ route, v.taker = (CircularLinkedList.nodes stack).find?
    fun d => d.layer == v.layer && d.handles v.packet.packet
  lookups : finds trace = route.map fun v => (v.layer, v.packet, v.taker)
  dumped : dumps trace = route.filterMap Visit.dumped
  dump_layers : (dumps trace).Pairwise fun a b => a.1.layer < b.1.layer
  destroyed_once : ∀ r, Returned trace r → ∃ before after,
    trace = before ++ Event.destroy r :: after ∧
      (∀ e ∈ before, ¬ e.Destroys r.id) ∧ ∀ e ∈ after, ¬ e.Mentions r.id
  destroyed_returned : ∀ r, Event.destroy r ∈ trace → Returned trace r ∧ r.id ≠ 0

/-- Whatever the registered dissectors do, `osi_dump_packet` returns, walks the layers
in order, dumps at most once per layer, destroys every decapsulated packet once, after
its last use, and never destroys the caller's. -/
theorem osiDumpPacket_discipline (stack : Stack) (packet : Packet) :
    WalkDiscipline stack packet (visits stack packet) (osiDumpPacketTrace stack packet) where
  starts := rfl
  layers := visits_layers stack packet
  follows := visits_follows stack packet
  first_accepting _ hv := taker_first hv
  lookups := finds_trace stack packet
  dumped := dumps_trace stack packet
  dump_layers := dumps_layer_lt stack packet
  destroyed_once _ hr := destroyed_once hr
  destroyed_returned _ hr := destroyed_returned hr

end Stack
end OpenSniffer.OsiWalk
