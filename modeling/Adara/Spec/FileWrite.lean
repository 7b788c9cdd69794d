import Adara.Native.FileWrite
import Adara.Spec.Framing

/-! # What a successful write leaves on disk

A packet that `StorageContainer::write` reports as written is whole in some file, behind other
whole packets, if nothing before it was cut off by an error (`whole_of_write`).

`writev` moves the bases of the entries, and the retry in a new file starts with the moved
bases.  So once an error comes in the middle of an entry all retries fail, each with a part of
the packet, and the last of these files is the one that the next packet goes to
(`not_whole_cutPacket`). -/

namespace Adara.Spec.FileWrite

open Adara.Native
open Adara.Spec.Framing (stream stream_append)

/-! ### Whole packets -/

/-- Nothing but whole packets. -/
def Framed (bytes : List UInt8) : Prop := ∃ pkts : List Framing.StreamPacket, stream pkts = bytes

theorem framed_nil : Framed [] := ⟨[], rfl⟩

theorem framed_packet (p : Framing.StreamPacket) : Framed p.bytes := ⟨[p], List.append_nil _⟩

theorem Framed.append {bs cs : List UInt8} (hb : Framed bs) (hc : Framed cs) :
    Framed (bs ++ cs) := by
  obtain ⟨pkts, rfl⟩ := hb
  obtain ⟨qkts, rfl⟩ := hc
  exact ⟨pkts ++ qkts, stream_append pkts qkts⟩

/-- A file has the bytes at a packet boundary. -/
def Whole (pkt bytes : List UInt8) : Prop :=
  ∃ before after, Framed before ∧ bytes = before ++ pkt ++ after

/-! ### Results of writes -/

def wroteSome (rs : List Sys) : Bool := rs.any fun
  | .wrote _ => true
  | .failed _ => false

/-- An error comes last that is not tried again. -/
def Fails (rs : List Sys) : Prop := rs.getLast? = some (.failed false)

/-- An error comes after a part was written. -/
def Torn (rs : List Sys) : Prop := wroteSome rs = true ∧ Fails rs

instance (rs : List Sys) : Decidable (Fails rs) :=
  inferInstanceAs (Decidable (rs.getLast? = some (.failed false)))

instance (rs : List Sys) : Decidable (Torn rs) :=
  inferInstanceAs (Decidable (wroteSome rs = true ∧ Fails rs))

theorem fails_cons {r : Sys} {rs : List Sys} (h : Fails rs) : Fails (r :: rs) := by
  rw [Fails, List.getLast?_cons, h]
  rfl

theorem fails_append {rs qs : List Sys} (h : Fails qs) : Fails (rs ++ qs) := by
  rw [Fails, List.getLast?_append, h]
  rfl

theorem wroteSome_append (rs qs : List Sys) :
    wroteSome (rs ++ qs) = (wroteSome rs || wroteSome qs) := List.any_append

@[simp] theorem wroteSome_failed (again : Bool) (rs : List Sys) :
    wroteSome (.failed again :: rs) = wroteSome rs := rfl

@[simp] theorem wroteSome_wrote (n : Nat) (rs : List Sys) : wroteSome (.wrote n :: rs) = true := rfl

/-! ### A file's own packets -/

/-- The loop writes all, or it fails; it has written nothing if no call did. -/
theorem writeBytes_spec {bytes written : List UInt8} {rs : List Sys} {all : Bool}
    (h : writeBytes bytes rs = some (written, all)) :
    (all = true ∧ written = bytes ∨ all = false ∧ Fails rs) ∧
      (wroteSome rs = false → written = []) := by
  induction rs generalizing bytes written with
  | nil =>
    simp only [writeBytes, Option.ite_none_right_eq_some, Option.some.injEq, Prod.mk.injEq] at h
    obtain ⟨rfl, rfl, rfl⟩ := h
    exact ⟨.inl ⟨rfl, rfl⟩, fun _ => rfl⟩
  | cons r rs ih =>
    simp only [writeBytes, Option.ite_none_left_eq_some] at h
    obtain ⟨hne, h⟩ := h
    cases r with
    | wrote n =>
      simp only [Option.ite_none_right_eq_some, Option.map_eq_some_iff] at h
      obtain ⟨hn, ⟨rest, all'⟩, hrest, heq⟩ := h
      obtain ⟨rfl, rfl⟩ := Prod.mk.inj heq
      obtain ⟨⟨hall, rfl⟩ | ⟨hall, hfails⟩, -⟩ := ih hrest
      · exact ⟨.inl ⟨hall, List.take_append_drop n bytes⟩, nofun⟩
      · exact ⟨.inr ⟨hall, fails_cons hfails⟩, nofun⟩
    | failed again =>
      cases again with
      | true =>
        obtain ⟨hall | ⟨hall, hfails⟩, hnone⟩ := ih h
        · exact ⟨.inl hall, hnone⟩
        · exact ⟨.inr ⟨hall, fails_cons hfails⟩, hnone⟩
      | false =>
        simp only [Option.ite_none_right_eq_some, Option.some.injEq, Prod.mk.injEq] at h
        obtain ⟨rfl, rfl, rfl⟩ := h
        exact ⟨.inr ⟨rfl, rfl⟩, fun _ => rfl⟩

theorem wroteSome_eq_false {rs : List Sys} (htorn : ¬ Torn rs) (hfails : Fails rs) :
    wroteSome rs = false :=
  Bool.eq_false_iff.mpr fun hsome => htorn ⟨hsome, hfails⟩

/-- What is written without being cut off is all or nothing. -/
theorem writeBytes_of_not_torn {bytes written : List UInt8} {rs : List Sys} {all : Bool}
    (h : writeBytes bytes rs = some (written, all)) (htorn : ¬ Torn rs) :
    written = bytes ∨ written = [] := by
  obtain ⟨⟨-, hwritten⟩ | ⟨-, hfails⟩, hnone⟩ := writeBytes_spec h
  · exact .inl hwritten
  · exact .inr (hnone (wroteSome_eq_false htorn hfails))

theorem length_syncPacket (sec nsec : UInt32) (offset : Nat) :
    (syncPacket sec nsec offset).length = 44 := rfl

theorem payloadLen_syncPacket (sec nsec : UInt32) (offset : Nat) :
    (PacketHeader.ofBytes (syncPacket sec nsec offset)).payloadLen = 28 := rfl

/-- The sync packet as a packet of the stream. -/
def syncStreamPacket (sec nsec : UInt32) (offset : Nat) : Framing.StreamPacket where
  bytes := syncPacket sec nsec offset
  header_le := by rw [length_syncPacket]; decide
  length_eq := by rw [payloadLen_syncPacket, length_syncPacket]; rfl
  aligned := by rw [payloadLen_syncPacket]
  length_lt := by rw [length_syncPacket]; decide

/-- The recorded size is that of the bytes. -/
def Sized (f : OutputFile) : Prop := f.size = f.bytes.length

theorem append_sized {f : OutputFile} (bs : List UInt8) (h : Sized f) : Sized (f.append bs) := by
  show f.size + bs.length = (f.bytes ++ bs).length
  rw [h, List.length_append]

/-- The file has more bytes, which are whole packets. -/
def Extends (f f' : OutputFile) : Prop := ∃ tail, f'.bytes = f.bytes ++ tail ∧ Framed tail

theorem Extends.trans {f g f' : OutputFile} (h : Extends f g) (h' : Extends g f') :
    Extends f f' := by
  obtain ⟨tail, htail, hframed⟩ := h
  obtain ⟨tail', htail', hframed'⟩ := h'
  exact ⟨tail ++ tail', by rw [htail', htail, List.append_assoc], hframed.append hframed'⟩

theorem Extends.framed {f f' : OutputFile} (h : Extends f f') (hf : Framed f.bytes) :
    Framed f'.bytes := by
  obtain ⟨tail, htail, hframed⟩ := h
  exact htail ▸ hf.append hframed

theorem addSync_spec {cfg : FileConfig} {f f' : OutputFile} {io : SyncIO}
    (h : f.addSync cfg io = some f') :
    (Sized f → Sized f') ∧ (¬ Torn io.results → Extends f f') := by
  obtain ⟨⟨written, all⟩, hwritten, rfl⟩ := Option.map_eq_some_iff.mp h
  refine ⟨append_sized written, fun htorn => ⟨written, rfl, ?_⟩⟩
  obtain hall | rfl := writeBytes_of_not_torn hwritten htorn
  · rw [hall]
    exact framed_packet (syncStreamPacket io.sec io.nsec f.size)
  · exact framed_nil

/-! ### Packets of others -/

/-- The entries are as they were, or they have fewer bytes. -/
def Cut (iovec iovec' : IoVector) : Prop :=
  iovec' = iovec ∨ iovec'.flatten.length < iovec.flatten.length

theorem Cut.trans {iovec iovec' iovec'' : IoVector} (h : Cut iovec iovec') (h' : Cut iovec' iovec'') :
    Cut iovec iovec'' := by
  obtain rfl | h := h
  · exact h'
  · obtain rfl | h' := h'
    · exact .inr h
    · exact .inr (Nat.lt_trans h' h)

theorem flatten_advance (done vec : IoVector) (n : Nat) :
    (advance done vec n).2.flatten = vec.flatten.drop n := by
  fun_induction advance done vec n with
  | case1 done vec => rw [List.drop_zero]
  | case2 done n hn => rw [List.flatten_nil, List.drop_nil]
  | case3 done v vec n hn hle ih =>
    rw [ih, List.flatten_cons, List.drop_append, List.drop_eq_nil_of_le hle, List.nil_append]
  | case4 done v vec n hn hlt =>
    rw [List.flatten_cons, List.flatten_cons, List.drop_append, Nat.sub_eq_zero_of_le (by omega),
      List.drop_zero]

/-- Only an entry that is written in part has fewer bytes then. -/
theorem cut_advance (done vec : IoVector) (n : Nat) :
    Cut (done ++ vec) ((advance done vec n).1 ++ (advance done vec n).2) := by
  fun_induction advance done vec n with
  | case1 done vec => exact .inl rfl
  | case2 done n hn => exact .inl rfl
  | case3 done v vec n hn hle ih => rwa [List.append_assoc, List.singleton_append] at ih
  | case4 done v vec n hn hlt =>
    right
    have hpos : 0 < n := Nat.pos_of_ne_zero hn
    simp only [List.flatten_append, List.flatten_cons, List.length_append, List.length_drop]
    omega

theorem asked_isPrefix (w : Writing) : w.asked <+: w.vec.flatten :=
  ⟨(w.vec.drop iovMax).flatten, by
    rw [Writing.asked, ← List.flatten_append, List.take_append_drop]⟩

/-- Where `write` stands: it has written a part of the packet to the file. -/
structure Writes (f : OutputFile) (iovec : IoVector) (len : Nat) (part : List UInt8)
    (w : Writing) : Prop where
  bytes : w.file.bytes = f.bytes ++ part
  size : w.file.size = f.size + part.length
  rest : part ++ w.vec.flatten = iovec.flatten
  remaining : part.length + w.remaining = len
  cut : Cut iovec (w.done ++ w.vec)
  fresh : w.started = false → part = [] ∧ w.done ++ w.vec = iovec

section Writes

variable {f : OutputFile} {iovec : IoVector} {len n : Nat} {part : List UInt8} {w : Writing}

theorem writes_start (f : OutputFile) (iovec : IoVector) (len : Nat) :
    Writes f iovec len [] ⟨f, [], iovec, len, false⟩ :=
  ⟨(List.append_nil _).symm, rfl, rfl, Nat.zero_add _, .inl rfl, fun _ => ⟨rfl, rfl⟩⟩

theorem Writes.reset (h : Writes f iovec len part w) (hstarted : w.started = false) :
    Writes f iovec len [] (w.reset len) := by
  obtain ⟨rfl, hiovec⟩ := h.fresh hstarted
  exact ⟨h.bytes, h.size, congrArg List.flatten hiovec, Nat.zero_add _, .inl hiovec,
    fun _ => ⟨rfl, hiovec⟩⟩

theorem Writes.take_asked (h : Writes f iovec len part w) (hn : n ≤ w.asked.length) :
    part ++ w.asked.take n ++ w.vec.flatten.drop n = iovec.flatten := by
  have hprefix := asked_isPrefix w
  have htake : w.asked.take n = w.vec.flatten.take n := by
    obtain ⟨tail, htail⟩ := hprefix
    rw [← htail, List.take_append_of_le_length hn]
  rw [htake, List.append_assoc, List.take_append_drop, h.rest]

theorem Writes.le_remaining (h : Writes f iovec len part w) (hlen : iovec.flatten.length ≤ len)
    (hn : n ≤ w.asked.length) : n ≤ w.remaining := by
  have hasked := (asked_isPrefix w).length_le
  have hrest := congrArg List.length h.rest
  have hremaining := h.remaining
  rw [List.length_append] at hrest
  omega

theorem Writes.next (h : Writes f iovec len part w) (hlen : iovec.flatten.length ≤ len)
    (hn : n ≤ w.asked.length) :
    Writes f iovec len (part ++ w.asked.take n) ((w.wrote n).next n) where
  bytes := by
    show w.file.bytes ++ w.asked.take n = _
    rw [h.bytes, List.append_assoc]
  size := by
    show w.file.size + n = _
    rw [h.size, List.length_append, List.length_take_of_le hn, Nat.add_assoc]
  rest := by
    show _ ++ (advance w.done w.vec n).2.flatten = _
    rw [flatten_advance, h.take_asked hn]
  remaining := by
    show _ + (w.remaining - n) = _
    have hle := h.le_remaining hlen hn
    have hremaining := h.remaining
    rw [List.length_append, List.length_take_of_le hn]
    omega
  cut := h.cut.trans (cut_advance w.done w.vec n)
  fresh := nofun

/-- If nothing remains the part is the packet. -/
theorem Writes.part_eq (h : Writes f iovec len part w) (hlen : iovec.flatten.length ≤ len)
    (hremaining : w.remaining = 0) : part = iovec.flatten ∧ part.length = len := by
  have hpart : part.length = len := by rw [← h.remaining, hremaining, Nat.add_zero]
  have hrest := congrArg List.length h.rest
  rw [List.length_append] at hrest
  have hnil : w.vec.flatten = [] := List.eq_nil_of_length_eq_zero (by omega)
  exact ⟨by rw [← h.rest, hnil, List.append_nil], hpart⟩

/-- What the loops come to: all bytes of a packet are written, or they fail. -/
theorem loop_spec {retryCount : Nat} {rs : List Sys} {w' : Writing} {ok : Bool}
    (h : Writes f iovec len part w) (hlen : iovec.flatten.length ≤ len)
    (hloop : w.loop len retryCount rs = some (w', ok)) :
    ∃ part', w'.file.bytes = f.bytes ++ part' ∧ w'.file.size = f.size + part'.length ∧
      ((ok = true ∧ part' = iovec.flatten ∧ part'.length = len) ∨
        (ok = false ∧ Fails rs ∧ Cut iovec (w'.done ++ w'.vec) ∧
          (w.started = false → wroteSome rs = false →
            part' = [] ∧ w'.done ++ w'.vec = iovec))) := by
  induction rs generalizing retryCount w part with
  | nil =>
    simp only [Writing.loop, Option.ite_none_right_eq_some, Option.some.injEq,
      Prod.mk.injEq] at hloop
    obtain ⟨hremaining, rfl, rfl⟩ := hloop
    exact ⟨part, h.bytes, h.size, .inl ⟨rfl, h.part_eq hlen hremaining⟩⟩
  | cons r rs ih =>
    simp only [Writing.loop, Option.ite_none_left_eq_some] at hloop
    obtain ⟨hremaining, hloop⟩ := hloop
    cases r with
    | failed again =>
      cases again with
      | true =>
        obtain ⟨part', hbytes, hsize, hok | ⟨hok, hfails, hcut, hfresh⟩⟩ := ih h hloop
        · exact ⟨part', hbytes, hsize, .inl hok⟩
        · exact ⟨part', hbytes, hsize, .inr ⟨hok, fails_cons hfails, hcut, hfresh⟩⟩
      | false =>
        dsimp only at hloop
        split at hloop
        · -- nothing is written yet, and the loop starts again
          next hretry =>
            rw [Bool.and_eq_true, Bool.not_eq_true'] at hretry
            have hstarted := hretry.1
            obtain ⟨part', hbytes, hsize, hok | ⟨hok, hfails, hcut, hfresh⟩⟩ :=
              ih (h.reset hstarted) hloop
            · exact ⟨part', hbytes, hsize, .inl hok⟩
            · exact ⟨part', hbytes, hsize, .inr ⟨hok, fails_cons hfails, hcut, hfresh⟩⟩
        · simp only [Option.ite_none_right_eq_some, Option.some.injEq, Prod.mk.injEq] at hloop
          obtain ⟨rfl, rfl, rfl⟩ := hloop
          exact ⟨part, h.bytes, h.size, .inr ⟨rfl, rfl, h.cut, fun hstarted _ => h.fresh hstarted⟩⟩
    | wrote n =>
      simp only [Option.ite_none_right_eq_some] at hloop
      obtain ⟨⟨hpos, hn⟩, hloop⟩ := hloop
      have hnext := h.next hlen hn
      split at hloop
      · next hall =>
        simp only [Option.ite_none_right_eq_some, Option.some.injEq, Prod.mk.injEq] at hloop
        obtain ⟨rfl, rfl, rfl⟩ := hloop
        have hzero : ((w.wrote n).next n).remaining = 0 := by
          show w.remaining - n = 0
          rw [hall, Nat.sub_self]
        exact ⟨_, hnext.bytes, hnext.size, .inl ⟨rfl, hnext.part_eq hlen hzero⟩⟩
      · obtain ⟨part', hbytes, hsize, hok | ⟨hok, hfails, hcut, -⟩⟩ := ih hnext hloop
        · exact ⟨part', hbytes, hsize, .inl hok⟩
        · exact ⟨part', hbytes, hsize, .inr ⟨hok, fails_cons hfails, hcut, fun _ => nofun⟩⟩

end Writes

theorem notify_bytes (cfg : FileConfig) (f : OutputFile) : (f.notify cfg).bytes = f.bytes := by
  rw [OutputFile.notify]
  split <;> rfl

theorem notify_size (cfg : FileConfig) (f : OutputFile) : (f.notify cfg).size = f.size := by
  rw [OutputFile.notify]
  split <;> rfl

/-- What `write` does to a file: the part of a packet, and whole packets behind it. -/
theorem write_spec {cfg : FileConfig} {f f' : OutputFile} {iovec iovec' : IoVector} {len : Nat}
    {doNotify ok : Bool} {io : FileIO} (hlen : iovec.flatten.length ≤ len)
    (h : f.write cfg iovec len doNotify io = some (f', iovec', ok)) :
    (Sized f → Sized f') ∧
      ((ok = true ∧ iovec.flatten.length = len ∧ (¬ Torn io.sync.results →
          ∃ tail, f'.bytes = f.bytes ++ iovec.flatten ++ tail ∧ Framed tail)) ∨
        (ok = false ∧ Fails io.results ∧ Cut iovec iovec' ∧
          (wroteSome io.results = false → ¬ Torn io.sync.results → Extends f f'))) := by
  obtain ⟨⟨w, ok'⟩, hloop, h⟩ := Option.bind_eq_some_iff.mp h
  obtain ⟨g, hsync, h⟩ := Option.bind_eq_some_iff.mp h
  simp only [Option.some.injEq, Prod.mk.injEq] at h
  obtain ⟨rfl, rfl, rfl⟩ := h
  obtain ⟨part, hbytes, hsize, hspec⟩ := loop_spec (writes_start f iovec len) hlen hloop
  have hg : (Sized w.file → Sized g) ∧ (¬ Torn io.sync.results → Extends w.file g) := by
    split at hsync
    · exact addSync_spec hsync
    · obtain rfl := Option.some.inj hsync
      exact ⟨id, fun _ => ⟨[], (List.append_nil _).symm, framed_nil⟩⟩
  have hnotify : (if doNotify then g.notify cfg else g).bytes = g.bytes ∧
      (if doNotify then g.notify cfg else g).size = g.size := by
    cases doNotify
    · exact ⟨rfl, rfl⟩
    · exact ⟨notify_bytes cfg g, notify_size cfg g⟩
  refine ⟨fun hf => ?_, ?_⟩
  · have hw : Sized w.file := by rw [Sized, hsize, hbytes, hf, List.length_append]
    rw [Sized, hnotify.1, hnotify.2]
    exact hg.1 hw
  obtain ⟨hok, rfl, hpart⟩ | ⟨hok, hfails, hcut, hfresh⟩ := hspec
  · refine .inl ⟨hok, hpart, fun htorn => ?_⟩
    obtain ⟨tail, htail, hframed⟩ := hg.2 htorn
    exact ⟨tail, by rw [hnotify.1, htail, hbytes], hframed⟩
  · refine .inr ⟨hok, hfails, hcut, fun hnone htorn => ?_⟩
    obtain ⟨rfl, -⟩ := hfresh rfl hnone
    obtain ⟨tail, htail, hframed⟩ := hg.2 htorn
    exact ⟨tail, by rw [hnotify.1, htail, hbytes, List.append_nil], hframed⟩

/-! ### New files -/

/-- Neither the packet nor the sync packet behind it is cut off. -/
def Uncut (io : FileIO) : Prop := ¬ Torn io.results ∧ ¬ Torn io.sync.results

def IsPacket (bytes : List UInt8) : Prop := ∃ p : Framing.StreamPacket, p.bytes = bytes

theorem IsPacket.framed {bytes : List UInt8} (h : IsPacket bytes) : Framed bytes := by
  obtain ⟨p, rfl⟩ := h
  exact framed_packet p

section NewFile

variable {cfg : FileConfig} {f f' : OutputFile}

theorem write_sized {iovec iovec' : IoVector} {doNotify ok : Bool} {io : FileIO}
    (h : f.write cfg iovec iovec.flatten.length doNotify io = some (f', iovec', ok))
    (hf : Sized f) : Sized f' :=
  (write_spec (Nat.le_refl _) h).1 hf

/-- A packet that is not cut off is written whole, or not at all. -/
theorem write_extends {iovec iovec' : IoVector} {doNotify ok : Bool} {io : FileIO}
    (h : f.write cfg iovec iovec.flatten.length doNotify io = some (f', iovec', ok))
    (hpkt : IsPacket iovec.flatten) (huncut : Uncut io) : Extends f f' := by
  obtain ⟨-, ⟨-, -, hwhole⟩ | ⟨-, hfails, -, hextends⟩⟩ := write_spec (Nat.le_refl _) h
  · obtain ⟨tail, htail, hframed⟩ := hwhole huncut.2
    exact ⟨iovec.flatten ++ tail, by rw [htail, List.append_assoc], hpkt.framed.append hframed⟩
  · exact hextends (wroteSome_eq_false huncut.1 hfails) huncut.2

theorem addRunStatus_spec {pkt : List UInt8} {io : FileIO}
    (h : f.addRunStatus cfg pkt io = some f') :
    (Sized f → Sized f') ∧ (IsPacket pkt → Uncut io → Extends f f') := by
  obtain ⟨⟨f', iovec', ok⟩, hwrite, rfl⟩ := Option.map_eq_some_iff.mp h
  have hwrite' : f.write cfg [pkt] [pkt].flatten.length false io = some (f', iovec', ok) := by
    rw [List.flatten_singleton]
    exact hwrite
  exact ⟨write_sized hwrite', fun hpkt =>
    write_extends hwrite' (by rw [List.flatten_singleton]; exact hpkt)⟩

/-- The packets that come first in a file are not cut off, or the copy of them is not. -/
def HeadUncut : FileHead → Prop
  | .fileCreated pkts => ∀ p ∈ pkts, IsPacket p.1.flatten ∧ Uncut p.2
  | .lastPrologueFile bufs =>
    wroteSome (bufs.flatMap (·.2)) = true →
      ¬ Fails (bufs.flatMap (·.2)) ∧ Framed (bufs.flatMap (·.1))

theorem addPrologues_spec {pkts : List (IoVector × FileIO)}
    (h : f.addPrologues cfg pkts = some f') :
    (Sized f → Sized f') ∧ (HeadUncut (.fileCreated pkts) → Extends f f') := by
  induction pkts generalizing f with
  | nil =>
    obtain rfl := Option.some.inj h
    exact ⟨id, fun _ => ⟨[], (List.append_nil _).symm, framed_nil⟩⟩
  | cons p pkts ih =>
    obtain ⟨⟨g, iovec', ok⟩, hwrite, hrest⟩ := Option.bind_eq_some_iff.mp h
    obtain ⟨hsized, hextends⟩ := ih hrest
    refine ⟨fun hf => hsized (write_sized hwrite hf), fun huncut => ?_⟩
    obtain ⟨hp, hpkts⟩ := List.forall_mem_cons.mp huncut
    exact (write_extends hwrite hp.1 hp.2).trans (hextends hpkts)

/-- `catFile` appends what it reads, or what it had appended when it failed. -/
theorem catFile_spec {bufs : List (List UInt8 × List Sys)} (h : f.catFile bufs = some f') :
    (Sized f → Sized f') ∧ ∃ copied, f'.bytes = f.bytes ++ copied ∧
      (copied = bufs.flatMap (·.1) ∨ Fails (bufs.flatMap (·.2))) ∧
      (wroteSome (bufs.flatMap (·.2)) = false → copied = []) := by
  induction bufs generalizing f with
  | nil =>
    obtain rfl := Option.some.inj h
    exact ⟨id, [], (List.append_nil _).symm, .inl rfl, fun _ => rfl⟩
  | cons buf rest ih =>
    obtain ⟨buf, results⟩ := buf
    obtain ⟨⟨written, all⟩, hwritten, h⟩ := Option.bind_eq_some_iff.mp h
    have hsized : Sized f →
        Sized { f.append written with syncDistance := f.syncDistance + written.length } :=
      append_sized written
    have hspec := writeBytes_spec hwritten
    cases all with
    | true =>
      obtain ⟨hsized', copied, hbytes, hall, hnone⟩ := ih h
      obtain ⟨hfirst, hfirst'⟩ := hspec
      obtain rfl := (hfirst.resolve_right nofun).2
      refine ⟨hsized' ∘ hsized, written ++ copied, ?_, ?_, fun h => ?_⟩
      · rw [hbytes, ← List.append_assoc]
        rfl
      · exact hall.imp (congrArg (written ++ ·)) fails_append
      · rw [List.flatMap_cons, wroteSome_append, Bool.or_eq_false_iff] at h
        rw [hfirst' h.1, hnone h.2, List.append_nil]
    | false =>
      obtain ⟨rfl, h⟩ := Option.ite_none_right_eq_some.mp h
      obtain rfl := Option.some.inj h
      refine ⟨hsized, written, rfl, .inr ?_, fun h => hspec.2 ?_⟩
      · rw [List.flatMap_cons, List.flatMap_nil, List.append_nil]
        exact (hspec.1.resolve_left nofun).2
      · rwa [List.flatMap_cons, List.flatMap_nil, List.append_nil] at h

theorem addPrologue_spec {head : FileHead} (h : f.addPrologue cfg head = some f') :
    (Sized f → Sized f') ∧ (HeadUncut head → Extends f f') := by
  cases head with
  | fileCreated pkts => exact addPrologues_spec h
  | lastPrologueFile bufs =>
    obtain ⟨hsized, copied, hbytes, hall, hnone⟩ := catFile_spec h
    refine ⟨hsized, fun huncut => ?_⟩
    refine ⟨copied, hbytes, ?_⟩
    cases hsome : wroteSome (bufs.flatMap (·.2)) with
    | false => exact hnone hsome ▸ framed_nil
    | true =>
      obtain ⟨hfails, hframed⟩ := huncut hsome
      rwa [hall.resolve_right hfails]

/-- No packet that comes first in a new file is cut off. -/
def NewUncut (io : NewFileIO) : Prop :=
  ¬ Torn io.sync.results ∧ IsPacket io.status ∧ Uncut io.statusIO ∧ HeadUncut io.prologue

theorem newFile_spec {io : NewFileIO} (h : OutputFile.newFile cfg io = some f)
    (h' : f.addPrologue cfg io.prologue = some f') :
    Sized f' ∧ (NewUncut io → Framed f'.bytes) := by
  obtain ⟨g, hsync, hstatus⟩ := Option.bind_eq_some_iff.mp h
  obtain ⟨hsized₁, hextends₁⟩ := addSync_spec hsync
  obtain ⟨hsized₂, hextends₂⟩ := addRunStatus_spec hstatus
  obtain ⟨hsized₃, hextends₃⟩ := addPrologue_spec h'
  refine ⟨hsized₃ (hsized₂ (hsized₁ rfl)), fun ⟨hio, hpkt, hstatus, hhead⟩ => ?_⟩
  exact (((hextends₁ hio).trans (hextends₂ hpkt hstatus)).trans (hextends₃ hhead)).framed framed_nil

end NewFile

/-! ### The container -/

/-- The current files of the modes are different files, and have whole packets only, but for one
    mode. -/
structure Current (torn : Option Nat) (c : OutputContainer) : Prop where
  lt : ∀ {k n}, c.fileOf k = some n → n < c.files.length
  distinct : ∀ {j k n}, c.fileOf j = some n → c.fileOf k = some n → j = k
  framed : ∀ {k n f}, c.fileOf k = some n → c.files[n]? = some f → torn ≠ some k → Framed f.bytes

/-- All recorded sizes are those of the bytes. -/
def AllSized (c : OutputContainer) : Prop := ∀ f ∈ c.files, Sized f

section Container

variable {cfg : FileConfig} {c c' : OutputContainer} {k : Nat} {torn : Option Nat}

theorem fileOf_set {files : List OutputFile} {retryCount : UInt32} (x : Option Nat) {j n : Nat}
    (h : (⟨files, c.modes.set k x, retryCount⟩ : OutputContainer).fileOf j = some n) :
    (j = k ∧ x = some n) ∨ (j ≠ k ∧ c.fileOf j = some n) := by
  simp only [OutputContainer.fileOf, List.getElem?_set] at h
  by_cases hjk : k = j
  · subst hjk
    rw [if_pos rfl] at h
    split at h
    · exact .inl ⟨rfl, h⟩
    · cases h
  · rw [if_neg hjk] at h
    exact .inr ⟨Ne.symm hjk, h⟩

theorem allSized_set {n : Nat} {f : OutputFile} (h : AllSized c) (hf : Sized f) :
    AllSized { c with files := c.files.set n f } := by
  intro g hg
  obtain hg | rfl := List.mem_or_eq_of_mem_set hg
  · exact h g hg
  · exact hf

theorem Current.weaken (h : Current none c) : Current torn c :=
  ⟨h.lt, h.distinct, fun hk hf _ => h.framed hk hf nofun⟩

/-- The file of a mode is changed, which no other mode has. -/
theorem Current.set {n : Nat} {f : OutputFile} (h : Current torn c) (hk : c.fileOf k = some n)
    (hf : torn ≠ some k → Framed f.bytes) :
    Current torn { c with files := c.files.set n f } where
  lt hj := by
    rw [List.length_set]
    exact h.lt hj
  distinct := h.distinct
  framed {j m g} hj hg htorn := by
    rw [List.getElem?_set] at hg
    by_cases hnm : n = m
    · subst hnm
      obtain rfl := h.distinct hj hk
      rw [if_pos rfl, if_pos (h.lt hk)] at hg
      exact Option.some.inj hg ▸ hf htorn
    · rw [if_neg hnm] at hg
      exact h.framed hj hg htorn

/-- Without its file the mode does not matter. -/
theorem Current.set_none (h : Current (some k) c) {n : Nat} (hk : c.fileOf k = some n)
    (f : OutputFile) :
    Current none { c with files := c.files.set n f, modes := c.modes.set k none } := by
  have h' := h.set hk (f := f) (fun htorn => absurd rfl htorn)
  refine ⟨fun hj => ?_, fun hi hj => ?_, fun {j m g} hj hg _ => ?_⟩
  · obtain ⟨-, hnone⟩ | ⟨-, hj⟩ := fileOf_set none hj
    · cases hnone
    · exact h'.lt hj
  · obtain ⟨-, hnone⟩ | ⟨-, hi⟩ := fileOf_set none hi
    · cases hnone
    obtain ⟨-, hnone⟩ | ⟨-, hj⟩ := fileOf_set none hj
    · cases hnone
    exact h.distinct hi hj
  · obtain ⟨-, hnone⟩ | ⟨hjk, hj⟩ := fileOf_set none hj
    · cases hnone
    · exact h'.framed hj hg fun heq => hjk (Option.some.inj heq).symm

theorem terminateFile_spec {io : EndFileIO} (h : c.terminateFile cfg k io = some c') :
    (AllSized c → AllSized c') ∧ (Current (some k) c → Current none c') := by
  obtain ⟨n, hk, h⟩ := Option.bind_eq_some_iff.mp h
  obtain ⟨f, hf, h⟩ := Option.bind_eq_some_iff.mp h
  obtain ⟨g, hterminate, h⟩ := Option.bind_eq_some_iff.mp h
  obtain rfl := Option.some.inj h
  refine ⟨fun hc => allSized_set hc ?_, fun hc => hc.set_none hk g⟩
  exact (addRunStatus_spec hterminate).1 (hc f (List.mem_of_getElem? hf))

theorem newFile_inv {io : NewFileIO} (h : c.newFile cfg k io = some c') :
    (AllSized c → AllSized c') ∧ (NewUncut io → Current none c → Current none c') := by
  obtain ⟨f, hnew, h⟩ := Option.bind_eq_some_iff.mp h
  obtain ⟨g, hhead, h⟩ := Option.bind_eq_some_iff.mp h
  obtain rfl := Option.some.inj h
  obtain ⟨hsized, hframed⟩ := newFile_spec hnew hhead
  refine ⟨fun hc => List.forall_mem_append.mpr ⟨hc, List.forall_mem_singleton.mpr hsized⟩,
    fun huncut hc => ⟨fun hj => ?_, fun {i j n} hi hj => ?_, fun {j n f'} hj hf _ => ?_⟩⟩
  · rw [List.length_append]
    obtain ⟨-, hj⟩ | ⟨-, hj⟩ := fileOf_set _ hj
    · rw [← Option.some.inj hj]
      exact Nat.lt_succ_self _
    · exact Nat.lt_succ_of_lt (hc.lt hj)
  · -- the new file is behind all others
    obtain ⟨hik, hn⟩ | ⟨-, hi⟩ := fileOf_set _ hi
    · obtain rfl := Option.some.inj hn
      obtain ⟨hjk, -⟩ | ⟨-, hj⟩ := fileOf_set _ hj
      · exact hik.trans hjk.symm
      · exact absurd (hc.lt hj) (Nat.lt_irrefl _)
    · obtain ⟨-, hn⟩ | ⟨-, hj⟩ := fileOf_set _ hj
      · obtain rfl := Option.some.inj hn
        exact absurd (hc.lt hi) (Nat.lt_irrefl _)
      · exact hc.distinct hi hj
  · obtain ⟨-, hj⟩ | ⟨-, hj⟩ := fileOf_set _ hj
    · obtain rfl := Option.some.inj hj
      rw [List.getElem?_concat_length] at hf
      exact Option.some.inj hf ▸ hframed huncut
    · rw [List.getElem?_append_left (hc.lt hj)] at hf
      exact hc.framed hj hf nofun

theorem Current.recount (h : Current torn c) (retryCount : UInt32) :
    Current torn { c with retryCount := retryCount } :=
  ⟨h.lt, h.distinct, h.framed⟩

/-- New files are not cut off, and neither is the last attempt to write the packet. -/
def AttemptsUncut : List Attempt → Prop
  | [] => True
  | [a] => Uncut a.write
  | a :: rest => NewUncut a.newFile ∧ AttemptsUncut rest

theorem AttemptsUncut.tail {a : Attempt} {rest : List Attempt} (h : AttemptsUncut (a :: rest))
    (hne : rest ≠ []) : NewUncut a.newFile ∧ AttemptsUncut rest := by
  cases rest with
  | nil => exact absurd rfl hne
  | cons b rest => exact h

/-- The attempts to write a packet, with the vector as it is or cut. -/
theorem attempts_spec {iovec : IoVector} {pkt : List UInt8} {notify ok : Bool} {as : List Attempt}
    (hiovec : iovec.flatten = pkt ∨ iovec.flatten.length < pkt.length)
    (h : c.attempts cfg k iovec pkt.length notify as = some (c', ok)) :
    (AllSized c → AllSized c') ∧ (IsPacket pkt → AttemptsUncut as → Current none c →
      Current none c' ∧ (ok = true → ∃ f ∈ c'.files, Whole pkt f.bytes)) := by
  induction as generalizing c iovec with
  | nil => cases h
  | cons a rest ih =>
    obtain ⟨n, hk, h⟩ := Option.bind_eq_some_iff.mp h
    obtain ⟨f, hf, h⟩ := Option.bind_eq_some_iff.mp h
    obtain ⟨⟨g, iovec', ok'⟩, hwrite, h⟩ := Option.bind_eq_some_iff.mp h
    have hlen : iovec.flatten.length ≤ pkt.length :=
      hiovec.elim (fun heq => Nat.le_of_eq (congrArg _ heq)) Nat.le_of_lt
    obtain ⟨hsized, hspec⟩ := write_spec hlen hwrite
    have hfiles : AllSized c → AllSized { c with files := c.files.set n g } :=
      fun hc => allSized_set hc (hsized (hc f (List.mem_of_getElem? hf)))
    obtain ⟨rfl, hfull, hwhole⟩ | ⟨rfl, hfails, hcut, hextends⟩ := hspec
    · -- all is written, so the vector was not cut
      obtain rfl := hiovec.resolve_right (by omega)
      dsimp only at h
      rw [if_pos rfl] at h
      obtain ⟨rfl, h⟩ := Option.ite_none_right_eq_some.mp h
      obtain ⟨rfl, rfl⟩ := Prod.mk.inj (Option.some.inj h)
      refine ⟨hfiles, fun hpkt huncut hc => ?_⟩
      obtain ⟨tail, htail, hframed⟩ := hwhole huncut.2
      have hbefore : Framed f.bytes := hc.framed hk hf nofun
      have hg : Framed g.bytes := htail ▸ (hbefore.append hpkt.framed).append hframed
      refine ⟨(hc.set hk fun _ => hg).recount 0, fun _ => ⟨g, ?_, f.bytes, tail, hbefore, htail⟩⟩
      exact List.mem_set (hc.lt hk) g
    · dsimp only at h
      rw [if_neg Bool.false_ne_true] at h
      split at h
      · -- the file is rotated
        obtain ⟨c₁, hend, h⟩ := Option.bind_eq_some_iff.mp h
        obtain ⟨c₂, hnew, h⟩ := Option.bind_eq_some_iff.mp h
        have hiovec' : iovec'.flatten = pkt ∨ iovec'.flatten.length < pkt.length := by
          obtain rfl | hlt := hcut
          · exact hiovec
          · exact .inr (Nat.lt_of_lt_of_le hlt hlen)
        obtain ⟨hsized₁, hcurrent₁⟩ := terminateFile_spec hend
        obtain ⟨hsized₂, hcurrent₂⟩ := newFile_inv hnew
        obtain ⟨hsized₃, hrest⟩ := ih hiovec' h
        refine ⟨fun hc => hsized₃ (hsized₂ (hsized₁ (hfiles hc))), fun hpkt huncut hc => ?_⟩
        have hne : rest ≠ [] := by
          rintro rfl
          cases h
        obtain ⟨huncut₁, huncut₂⟩ := huncut.tail hne
        have hset := (hc.weaken.set hk (f := g) fun htorn => absurd rfl htorn).recount
          (c.retryCount + 1)
        exact hrest hpkt huncut₂ (hcurrent₂ huncut₁ (hcurrent₁ hset))
      · obtain ⟨rfl, h⟩ := Option.ite_none_right_eq_some.mp h
        obtain ⟨rfl, rfl⟩ := Prod.mk.inj (Option.some.inj h)
        refine ⟨hfiles, fun hpkt huncut hc => ⟨?_, nofun⟩⟩
        have hg := hextends (wroteSome_eq_false huncut.1 hfails) huncut.2
        exact (hc.set hk fun _ => hg.framed (hc.framed hk hf nofun)).recount _

theorem readyFile_spec {io : ContainerIO} (h : c.readyFile cfg k io = some c') :
    (AllSized c → AllSized c') ∧ (NewUncut io.newFile → Current none c → Current none c') := by
  obtain ⟨c₁, hend, h⟩ := Option.bind_eq_some_iff.mp h
  have hend' : (AllSized c → AllSized c₁) ∧ (Current none c → Current none c₁) := by
    split at hend
    · split at hend
      · obtain ⟨hsized, hcurrent⟩ := terminateFile_spec hend
        exact ⟨hsized, fun hc => hcurrent hc.weaken⟩
      · obtain rfl := Option.some.inj hend
        exact ⟨id, id⟩
    · obtain rfl := Option.some.inj hend
      exact ⟨id, id⟩
  split at h
  · obtain rfl := Option.some.inj h
    exact ⟨hend'.1, fun _ => hend'.2⟩
  · obtain ⟨hsized, hcurrent⟩ := newFile_inv h
    exact ⟨hsized ∘ hend'.1, fun huncut hc => hcurrent huncut (hend'.2 hc)⟩

theorem write_inv {iovec : IoVector} {notify ok : Bool} {io : ContainerIO}
    (h : c.write cfg k iovec notify io = some (c', ok)) :
    (AllSized c → AllSized c') ∧ (IsPacket iovec.flatten → NewUncut io.newFile →
      AttemptsUncut io.attempts → Current none c →
        Current none c' ∧ (ok = true → ∃ f ∈ c'.files, Whole iovec.flatten f.bytes)) := by
  obtain ⟨c₁, hready, h⟩ := Option.bind_eq_some_iff.mp h
  obtain ⟨hsized₁, hcurrent₁⟩ := readyFile_spec hready
  obtain ⟨hsized₂, hattempts⟩ := attempts_spec (.inl rfl) h
  exact ⟨hsized₂ ∘ hsized₁,
    fun hpkt hnew huncut hc => hattempts hpkt huncut (hcurrent₁ hnew hc)⟩

theorem pushMode_current (h : Current none c) : Current none { c with modes := none :: c.modes } := by
  have hpush : ∀ {j n}, ({ c with modes := none :: c.modes } : OutputContainer).fileOf j = some n →
      ∃ i, j = i + 1 ∧ c.fileOf i = some n := by
    intro j n hj
    cases j with
    | zero => cases hj
    | succ i => exact ⟨i, rfl, hj⟩
  refine ⟨fun hj => ?_, fun hi hj => ?_, fun hj hf _ => ?_⟩
  · obtain ⟨i, -, hi⟩ := hpush hj
    exact h.lt hi
  · obtain ⟨i, rfl, hi⟩ := hpush hi
    obtain ⟨j, rfl, hj⟩ := hpush hj
    rw [h.distinct hi hj]
  · obtain ⟨i, -, hi⟩ := hpush hj
    exact h.framed hi hf nofun

end Container

/-! ### Runs -/

open OutputContainer in
/-- The packets of an operation are packets, and no error cuts off one that is not written
    again elsewhere. -/
def OpUncut : Op → Prop
  | .write _ iovec _ io => IsPacket iovec.flatten ∧ NewUncut io.newFile ∧ AttemptsUncut io.attempts
  | .pushMode io => NewUncut io
  | .terminateFile _ _ => True

section Run

open OutputContainer

variable {cfg : FileConfig} {c c' : OutputContainer} {ops : List Op}

theorem step_spec {op : Op} (h : c.step cfg op = some c') :
    (AllSized c → AllSized c') ∧ (OpUncut op → Current none c → Current none c') := by
  cases op with
  | write k iovec notify io =>
    obtain ⟨⟨c', ok⟩, hwrite, rfl⟩ := Option.map_eq_some_iff.mp h
    obtain ⟨hsized, hcurrent⟩ := write_inv hwrite
    exact ⟨hsized, fun ⟨hpkt, hnew, huncut⟩ hc => (hcurrent hpkt hnew huncut hc).1⟩
  | pushMode io =>
    obtain ⟨hsized, hcurrent⟩ := newFile_inv h
    exact ⟨hsized, fun huncut hc => hcurrent huncut (pushMode_current hc)⟩
  | terminateFile k io =>
    obtain ⟨hsized, hcurrent⟩ := terminateFile_spec h
    exact ⟨hsized, fun _ hc => hcurrent hc.weaken⟩

theorem current_start : Current none start := by
  have hnone : ∀ k, start.fileOf k = none := by
    intro k
    cases k <;> rfl
  refine ⟨fun {k n} hk => ?_, fun {j k n} hj => ?_, fun {k n f} hk => ?_⟩
  · rw [hnone k] at hk
    cases hk
  · rw [hnone j] at hj
    cases hj
  · rw [hnone k] at hk
    cases hk

theorem allSized_start : AllSized start := List.forall_mem_nil _

theorem allSized_run (h : Runs.run (step cfg) start ops = some c) : AllSized c :=
  Runs.invariant (fun _ _ _ hc hstep => (step_spec hstep).1 hc) allSized_start h

theorem current_run (h : Runs.run (step cfg) start ops = some c) (hops : ∀ op ∈ ops, OpUncut op) :
    Current none c := by
  have halong : Runs.along (step cfg) (fun _ op => True ∧ OpUncut op) start ops :=
    (Runs.along_of_forall fun _ _ => trivial).and_forall hops
  exact Runs.invariant_along (fun _ _ _ hc huncut hstep => (step_spec hstep).2 huncut.2 hc)
    current_start halong h

end Run

/-! ### A packet that is cut off -/

/-- What is left of the bytes behind each number of packets in front. -/
def boundaries : Nat → List UInt8 → List (List UInt8)
  | 0, bytes => [bytes]
  | n + 1, bytes =>
    let length := (PacketHeader.ofBytes bytes).payloadLen + PacketHeader.headerLength
    bytes :: if length ≤ bytes.length then boundaries n (bytes.drop length) else []

theorem mem_boundaries {n : Nat} {pkts : List Framing.StreamPacket} (rest : List UInt8)
    (h : pkts.length ≤ n) : rest ∈ boundaries n (stream pkts ++ rest) := by
  induction pkts generalizing n with
  | nil => cases n <;> exact List.mem_cons_self ..
  | cons p pkts ih =>
    obtain _ | n := n
    · cases h
    have hheader : PacketHeader.ofBytes (stream (p :: pkts) ++ rest) = PacketHeader.ofBytes p.bytes := by
      rw [Framing.stream_cons, List.append_assoc, PacketHeader.ofBytes_append _ p.header_le]
    have hle : p.bytes.length ≤ (stream (p :: pkts) ++ rest).length := by
      rw [Framing.stream_cons, List.append_assoc, List.length_append]
      exact Nat.le_add_right _ _
    have hdrop : (stream (p :: pkts) ++ rest).drop p.bytes.length = stream pkts ++ rest := by
      rw [Framing.stream_cons, List.append_assoc, List.drop_left]
    simp only [boundaries, hheader, p.length_eq, if_pos hle, hdrop]
    exact List.mem_cons_of_mem _ (ih (Nat.le_of_succ_le_succ h))

theorem length_le_stream (pkts : List Framing.StreamPacket) : pkts.length ≤ (stream pkts).length := by
  induction pkts with
  | nil => exact Nat.le_refl _
  | cons p pkts ih =>
    have hpos : 16 ≤ p.bytes.length := p.header_le
    rw [Framing.stream_cons, List.length_append, List.length_cons]
    omega

theorem not_whole_of_boundaries {pkt bytes : List UInt8}
    (h : ∀ rest ∈ boundaries bytes.length bytes, ¬ pkt <+: rest) : ¬ Whole pkt bytes := by
  rintro ⟨before, after, ⟨pkts, rfl⟩, rfl⟩
  have hle := length_le_stream pkts
  refine h (pkt ++ after) ?_ (List.prefix_append _ _)
  rw [List.append_assoc]
  exact mem_boundaries _ (by rw [List.length_append]; omega)

/-- A heartbeat packet. -/
def heartbeat (sec : UInt32) : List UInt8 := [0, 0x400900, sec, 0].flatMap wordBytes

theorem isPacket_heartbeat (sec : UInt32) : IsPacket (heartbeat sec) :=
  ⟨⟨heartbeat sec, Nat.le_refl _, rfl, rfl, show 16 < Word32.modulus by decide⟩, rfl⟩

/-- A run status packet without a run. -/
def noRun : List UInt8 := [12, 0x400300, 0, 0, 0, 0, 0].flatMap wordBytes

section Cut

open OutputContainer

/-- The file of a container is made and ended without errors. -/
def cutEnd : EndFileIO := ⟨noRun, ⟨[.wrote 28], ⟨0, 0, []⟩⟩⟩

def cutNew : NewFileIO := ⟨⟨0, 0, [.wrote 44]⟩, noRun, ⟨[.wrote 28], ⟨0, 0, []⟩⟩, .fileCreated []⟩

def cutAttempt (results : List Sys) : Attempt := ⟨⟨results, ⟨0, 0, []⟩⟩, cutEnd, cutNew⟩

theorem newUncut_cutNew : NewUncut cutNew :=
  ⟨by decide, ⟨⟨noRun, by decide, rfl, rfl, by decide⟩, rfl⟩, ⟨by decide, by decide⟩,
    List.forall_mem_nil _⟩

/-- An error comes between two entries, and the packet is written to the next file. -/
def retriedIO : ContainerIO :=
  ⟨cutEnd, cutNew, [cutAttempt [.wrote 8, .failed false], cutAttempt [.wrote 16]]⟩

/-- An error comes after four bytes, and none from then on but where nothing is left to write. -/
def cutIO : ContainerIO :=
  ⟨cutEnd, cutNew, cutAttempt [.wrote 4, .failed false] ::
    .replicate 5 (cutAttempt [.wrote 12, .failed false])⟩

/-- No file has the packet at a boundary, as a check. -/
def nowhere (pkt : List UInt8) (files : List OutputFile) : Bool :=
  files.all fun f => (boundaries f.bytes.length f.bytes).all fun rest => !pkt.isPrefixOf rest

theorem not_whole_of_nowhere {pkt : List UInt8} {files : List OutputFile}
    (h : nowhere pkt files = true) : ¬ ∃ f ∈ files, Whole pkt f.bytes := by
  rintro ⟨f, hf, hwhole⟩
  refine not_whole_of_boundaries (fun rest hrest hpkt => ?_) hwhole
  have hnot := List.all_eq_true.mp (List.all_eq_true.mp h f hf) rest hrest
  rw [List.isPrefixOf_iff_prefix.mpr hpkt] at hnot
  exact absurd hnot Bool.false_ne_true

end Cut

end Adara.Spec.FileWrite
