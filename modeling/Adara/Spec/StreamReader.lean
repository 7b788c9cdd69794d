import Adara.Spec.MetaDataMgr

/-! # What a reader of the stream knows

A reader keeps the last descriptor of each device, and the last value of each of its variables
since then; a packet with several values counts as its last one, at the time of the packet plus
its time of flight.  A prologue tells a reader exactly what the manager has kept. -/

namespace Adara.Native.MetaDataMgr

/-! ### Readings -/

/-- A value of a variable, with its time in nanoseconds. -/
structure Reading where
  val : VariableValue
  status : UInt16
  severity : UInt16
  time : Nat
deriving DecidableEq

def headerTime (hdr : VariableHeader) : Nat := hdr.sec.toNat * nanoPerSecond + hdr.nsec.toNat

/-- The last value, after its time of flight. -/
def lastValue : MultVariableValue → Option (UInt32 × VariableValue)
  | .u32 vals => vals.getLast?.map (Prod.map id .u32)
  | .double vals => vals.getLast?.map (Prod.map id .double)
  | .string vals => vals.getLast?.map (Prod.map id .string)
  | .u32Array vals => vals.getLast?.map (Prod.map id .u32Array)
  | .doubleArray vals => vals.getLast?.map (Prod.map id .doubleArray)

/-- What a packet says about its variable. -/
def reading : VariablePkt → Option Reading
  | .single hdr val => some ⟨val, hdr.status, hdr.severity, headerTime hdr⟩
  | .mult hdr vals => (lastValue vals).map fun (tof, val) =>
      ⟨val, hdr.status, hdr.severity, headerTime hdr + tof.toNat⟩

/-- The packet has a last value, at a time that fits in the header of a packet. -/
def Extractable : VariablePkt → Prop
  | .single _ _ => True
  | .mult hdr vals => ∃ last, lastValue vals = some last ∧
      headerTime hdr + last.1.toNat < 2 ^ 32 * nanoPerSecond

/-- The loop carries all full seconds. -/
theorem carrySeconds_eq {n : Nat} (sec : Nat) {nsec : Nat} (h : nsec < (n + 1) * nanoPerSecond) :
    carrySeconds n sec nsec = (sec + nsec / nanoPerSecond, nsec % nanoPerSecond) := by
  induction n generalizing sec nsec with
  | zero =>
    rw [Nat.zero_add, Nat.one_mul] at h
    rw [carrySeconds, Nat.div_eq_of_lt h, Nat.mod_eq_of_lt h, Nat.add_zero]
  | succ n ih =>
    rw [carrySeconds]
    split
    · rename_i hle
      have hmul : (n + 1 + 1) * nanoPerSecond = (n + 1) * nanoPerSecond + nanoPerSecond :=
        Nat.succ_mul ..
      rw [ih _ (by omega), Nat.add_assoc, Nat.add_comm 1, ← Nat.mod_eq_sub_mod hle,
        ← Nat.div_eq_sub_div (by decide) hle]
    · rename_i hlt
      rw [not_le] at hlt
      rw [Nat.div_eq_of_lt hlt, Nat.mod_eq_of_lt hlt, Nat.add_zero]

/-- All overloads take the last value. -/
theorem extractLastValue_eq (hdr : VariableHeader) (vals : MultVariableValue) :
    extractLastValue hdr vals = (lastValue vals).map fun (tof, val) =>
      let ts := carrySeconds 9 hdr.sec.toNat (hdr.nsec.toNat + tof.toNat)
      .single { hdr with sec := UInt32.ofNat ts.1, nsec := UInt32.ofNat ts.2 } val := by
  cases vals <;> simp only [extractLastValue, extractLast, lastValue, Option.map_map] <;> rfl

/-- The header of the extracted value has the time of the value. -/
theorem headerTime_carrySeconds {hdr : VariableHeader} {tof : UInt32}
    (h : headerTime hdr + tof.toNat < 2 ^ 32 * nanoPerSecond) :
    headerTime { hdr with
      sec := UInt32.ofNat (carrySeconds 9 hdr.sec.toNat (hdr.nsec.toNat + tof.toNat)).1
      nsec := UInt32.ofNat (carrySeconds 9 hdr.sec.toNat (hdr.nsec.toNat + tof.toNat)).2 } =
      headerTime hdr + tof.toNat := by
  have hn := hdr.nsec.toNat_lt
  have ht := tof.toNat_lt
  have hcarry := carrySeconds_eq (n := 9) hdr.sec.toNat
    (show hdr.nsec.toNat + tof.toNat < (9 + 1) * nanoPerSecond by
      unfold nanoPerSecond
      omega)
  rw [hcarry]
  unfold headerTime nanoPerSecond at *
  rw [UInt32.toNat_ofNat_of_lt' (by simp only [UInt32.size]; omega),
    UInt32.toNat_ofNat_of_lt' (by simp only [UInt32.size]; omega)]
  omega

/-- The packet in a prologue says the same as the one that was kept. -/
theorem prologuePkt_spec {p : VariablePkt} (h : Extractable p) :
    ∃ q, prologuePkt p = some q ∧ q.hdr.devId = p.hdr.devId ∧ q.hdr.varId = p.hdr.varId ∧
      Extractable q ∧ reading q = reading p ∧ (reading p).isSome := by
  cases p with
  | single hdr val => exact ⟨_, rfl, rfl, rfl, trivial, rfl, rfl⟩
  | mult hdr vals =>
    obtain ⟨⟨tof, val⟩, hlast, htime⟩ := h
    have hpkt : prologuePkt (.mult hdr vals) = some (.single { hdr with
        sec := UInt32.ofNat (carrySeconds 9 hdr.sec.toNat (hdr.nsec.toNat + tof.toNat)).1
        nsec := UInt32.ofNat (carrySeconds 9 hdr.sec.toNat (hdr.nsec.toNat + tof.toNat)).2 }
        val) := by
      rw [prologuePkt, extractLastValue_eq, hlast, Option.map_some]
    refine ⟨_, hpkt, rfl, rfl, trivial, ?_, ?_⟩
    · simp only [reading, hlast, Option.map_some, headerTime_carrySeconds htime]
    · simp only [reading, hlast, Option.map_some, Option.isSome_some]

/-- A reading with the status of a lost connection. -/
def Reading.disconnected (r : Reading) : Reading := { r with status := 0xfffe, severity := 3 }

/-- Marking a packet changes what it says in that way. -/
theorem reading_upstreamDisconnected (p : VariablePkt) :
    reading p.upstreamDisconnected = (reading p).map Reading.disconnected := by
  cases p with
  | single => rfl
  | mult hdr vals =>
    simp only [VariablePkt.upstreamDisconnected, VariablePkt.withHdr, VariablePkt.hdr, reading,
      Option.map_map]
    rfl

/-! ### Readers -/

/-- What is known of a device. -/
@[ext] structure DeviceView where
  descriptor : DeviceDescriptorPkt
  values : UInt32 → Option Reading

/-- What is known of every device. -/
abbrev Reader : Type := UInt32 → Option DeviceView

/-- Set the value of a variable. -/
def DeviceView.set (v : DeviceView) (varId : UInt32) (r : Option Reading) : DeviceView :=
  { v with values := fun u => if u = varId then r else v.values u }

/-- One packet is read. -/
def Reader.read (r : Reader) : StreamPkt → Reader
  | .descriptor p => fun id => if id = p.devId then some ⟨p, fun _ => none⟩ else r id
  | .variable p => fun id =>
    if id = p.hdr.devId then (r id).map (·.set p.hdr.varId (reading p)) else r id

/-- Packets are read in order. -/
def Reader.replay (r : Reader) (pkts : List StreamPkt) : Reader := pkts.foldl Reader.read r

/-- What is known after the packets alone. -/
def replayed (pkts : List StreamPkt) : Reader := Reader.replay (fun _ => none) pkts

theorem replayed_append (pkts pkts' : List StreamPkt) :
    replayed (pkts ++ pkts') = (replayed pkts).replay pkts' :=
  List.foldl_append

@[simp] theorem read_descriptor (r : Reader) (p : DeviceDescriptorPkt) (id : UInt32) :
    r.read (.descriptor p) id = if id = p.devId then some ⟨p, fun _ => none⟩ else r id := rfl

@[simp] theorem read_variable (r : Reader) (p : VariablePkt) (id : UInt32) :
    r.read (.variable p) id =
      if id = p.hdr.devId then (r id).map (·.set p.hdr.varId (reading p)) else r id := rfl

/-- What is known of a device depends on what was known of it alone. -/
theorem read_congr {r r' : Reader} {id : UInt32} (h : r id = r' id) (pkt : StreamPkt) :
    r.read pkt id = r'.read pkt id := by
  cases pkt <;> simp only [Reader.read, h]

/-- The values of a device are set one by one. -/
theorem foldl_set {v : DeviceView} (m : SortedMap UInt32 VariablePkt)
    (f : VariablePkt → Option Reading) :
    m.entries.foldl (fun v e => v.set e.1 (f e.2)) v =
      ⟨v.descriptor, fun u => ((m.find? u).map f).getD (v.values u)⟩ := by
  have hfields : ∀ (l : List (UInt32 × VariablePkt)) (v : DeviceView),
      l.foldl (fun v e => v.set e.1 (f e.2)) v = ⟨v.descriptor,
        l.foldl (fun vals e u => if u = e.1 then f e.2 else vals u) v.values⟩ := by
    intro l
    induction l with
    | nil => exact fun _ => rfl
    | cons e l ih => exact fun v => ih _
  rw [hfields]
  refine congrArg _ (funext fun u => ?_)
  exact m.foldl_entries (g := fun _ p => f p) (fun _ _ _ => if_pos rfl)
    (fun _ _ _ _ hne => if_neg hne) v.values u

/-- Packets of a device set the values of its variables, and say nothing of other devices. -/
theorem replay_variables {r : Reader} {dev : UInt32} {v : DeviceView} (hv : r dev = some v)
    {ps : List VariablePkt} (hdev : ∀ p ∈ ps, p.hdr.devId = dev) (id : UInt32) :
    r.replay (ps.map .variable) id =
      if id = dev then some (ps.foldl (fun v p => v.set p.hdr.varId (reading p)) v)
      else r id := by
  induction ps generalizing r v with
  | nil =>
    split
    · rename_i hid
      rw [hid]
      exact hv
    · rfl
  | cons p ps ih =>
    have hp := hdev p List.mem_cons_self
    have hread : r.read (.variable p) dev = some (v.set p.hdr.varId (reading p)) := by
      rw [read_variable, hp, if_pos rfl, hv, Option.map_some]
    refine (ih hread fun q hq => hdev q (List.mem_cons_of_mem _ hq)).trans ?_
    split
    · rfl
    · rw [read_variable, hp, if_neg ‹_›]

/-! ### Prologues -/

/-- What the manager has kept of a device. -/
def view (d : DeviceVariables) : DeviceView :=
  ⟨d.descriptorPkt, fun u => (d.variablePkts.find? u).bind reading⟩

@[simp] theorem view_values (d : DeviceVariables) (u : UInt32) :
    (view d).values u = (d.variablePkts.find? u).bind reading := rfl

/-- What the manager has kept of every device. -/
def viewAt (s : MetaDataMgr) : Reader := fun id => (s.devices.find? id).map view

/-- The packets of an entry are of its device and variables, and have a last value. -/
structure Stored (id : UInt32) (d : DeviceVariables) : Prop where
  descriptor : d.descriptorPkt.devId = id
  pkts : ∀ u p, d.variablePkts.find? u = some p →
    p.hdr.devId = id ∧ p.hdr.varId = u ∧ Extractable p

private theorem mapM_eq_some {α β : Type} {f : α → Option β} {g : α → β} {l : List α}
    (h : ∀ a ∈ l, f a = some (g a)) : l.mapM f = some (l.map g) := by
  induction l with
  | nil => rfl
  | cons a l ih =>
    rw [List.mapM_cons, h a List.mem_cons_self, ih fun b hb => h b (List.mem_cons_of_mem _ hb)]
    rfl

/-- The part of a prologue for a device tells a reader what was kept of it. -/
theorem devicePrologue_spec {id : UInt32} {d : DeviceVariables} (h : Stored id d) :
    ∃ pkts, devicePrologue d = some pkts ∧ ∀ (r : Reader) id',
      r.replay pkts id' = if id' = id then some (view d) else r id' := by
  have hpkt : ∀ e ∈ d.variablePkts.entries, ∃ q, prologuePkt e.2 = some q ∧ q.hdr.devId = id ∧
      q.hdr.varId = e.1 ∧ reading q = reading e.2 := fun e he => by
    obtain ⟨hdev, hvar, hex⟩ := h.pkts e.1 e.2 (SortedMap.find?_eq_some.mpr he)
    obtain ⟨q, hq, hqdev, hqvar, -, hread, -⟩ := prologuePkt_spec hex
    exact ⟨q, hq, hqdev.trans hdev, hqvar.trans hvar, hread⟩
  let pkt : UInt32 × VariablePkt → VariablePkt := fun e => (prologuePkt e.2).getD e.2
  have hmapM : d.variablePkts.entries.mapM (fun e => (prologuePkt e.2).map StreamPkt.variable) =
      some (d.variablePkts.entries.map fun e => .variable (pkt e)) :=
    mapM_eq_some fun e he => by
      obtain ⟨q, hq, -⟩ := hpkt e he
      simp only [pkt, hq, Option.map_some, Option.getD_some]
  refine ⟨.descriptor d.descriptorPkt ::
    d.variablePkts.entries.map fun e => .variable (pkt e), ?_, fun r id' => ?_⟩
  · rw [devicePrologue, hmapM, Option.map_some]
  have hdev : ∀ p ∈ d.variablePkts.entries.map pkt, p.hdr.devId = id := fun p hp => by
    obtain ⟨e, he, rfl⟩ := List.mem_map.mp hp
    obtain ⟨q, hq, hqdev, -⟩ := hpkt e he
    simpa only [pkt, hq, Option.getD_some] using hqdev
  have hstart : r.read (.descriptor d.descriptorPkt) id =
      some ⟨d.descriptorPkt, fun _ => none⟩ := by
    rw [read_descriptor, h.descriptor, if_pos rfl]
  have hvars := replay_variables hstart hdev id'
  rw [List.map_map] at hvars
  refine hvars.trans ?_
  split
  · -- the entries set the values that are kept
    have hsame : (d.variablePkts.entries.map pkt).foldl
        (fun v p => DeviceView.set v p.hdr.varId (reading p)) ⟨d.descriptorPkt, fun _ => none⟩ =
        d.variablePkts.entries.foldl (fun v e => DeviceView.set v e.1 (reading e.2))
          ⟨d.descriptorPkt, fun _ => none⟩ := by
      rw [List.foldl_map]
      refine List.foldl_ext _ _ _ fun v e he => ?_
      obtain ⟨q, hq, -, hqvar, hread⟩ := hpkt e he
      simp only [pkt, hq, Option.getD_some, hqvar, hread]
    rw [hsame, foldl_set]
    refine congrArg some (DeviceView.ext rfl (funext fun u => ?_))
    show ((d.variablePkts.find? u).map reading).getD none = (d.variablePkts.find? u).bind reading
    cases d.variablePkts.find? u <;> rfl
  · rw [read_descriptor, h.descriptor, if_neg ‹_›]

/-- A prologue tells a reader exactly what is kept. -/
theorem onPrologue_spec {s : MetaDataMgr}
    (h : ∀ id d, s.devices.find? id = some d → Stored id d) :
    ∃ pkts, onPrologue s.devices = some pkts ∧ replayed pkts = s.viewAt := by
  let part : UInt32 × DeviceVariables → List StreamPkt := fun e =>
    (devicePrologue e.2).getD []
  have hpart : ∀ e ∈ s.devices.entries, devicePrologue e.2 = some (part e) ∧
      ∀ (r : Reader) id', r.replay (part e) id' = if id' = e.1 then some (view e.2) else r id' :=
    fun e he => by
      obtain ⟨pkts, hpkts, hreplay⟩ := devicePrologue_spec (h _ _ (SortedMap.find?_eq_some.mpr he))
      have heq : part e = pkts := by simp only [part, hpkts, Option.getD_some]
      exact heq ▸ ⟨hpkts, hreplay⟩
  refine ⟨(s.devices.entries.map part).flatten, ?_, funext fun id => ?_⟩
  · rw [onPrologue, mapM_eq_some fun e he => (hpart e he).1, Option.map_some]
  · have hfold : replayed (s.devices.entries.map part).flatten =
        s.devices.entries.foldl (fun r e => Reader.replay r (part e)) fun _ => none := by
      rw [replayed, Reader.replay, List.foldl_flatten, List.foldl_map]
      rfl
    rw [hfold]
    refine (s.devices.foldl_entries (g := fun _ d => some (view d))
      (fun r e he => by rw [(hpart e he).2, if_pos rfl])
      (fun r e he k hk => by rw [(hpart e he).2, if_neg hk]) _ id).trans ?_
    rw [viewAt]
    cases s.devices.find? id <;> rfl

end Adara.Native.MetaDataMgr
