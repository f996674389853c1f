import ScpRdma.Sender.Discipline
import ScpRdma.Sender.Quiet

/-!
# The chunks of a file

A file that holds at least the bytes that `stat` has seen is sent in the same packets whether it
was opened with `O_DIRECT` or not. The reads differ: with `O_DIRECT` they are rounded up to whole
pages, and what they bring too much is clipped.
-/
namespace ScpRdma.Sender
open Foundations

/-- The source is a file with the given bytes. It may grow, and a read brings what it asks for
unless the file ends before. -/
structure HoldsFile (W : World) (path : Path) (st : Stat) (content : Bytes) : Prop where
  stat : ∀ r : Option Stat, W (.stat path) r → r = some st ∨ r = none
  read : ∀ fd addr len off (r : Option Bytes), W (.pread fd addr len off) r →
    ∃ grown, content <+: grown ∧ r = some ((grown.drop off).take len)
  long : st.size ≤ content.length
  small : st.size ≤ (2 ^ 32 - 1) * scpChunkSize

/-- The bytes of chunk `i`. -/
def chunkBytes (content : Bytes) (size i : Nat) : Bytes :=
  ((content.take size).drop (i * scpChunkSize)).take scpChunkSize

/-- The packet of chunk `i`. -/
def chunkParcel (content : Bytes) (size i : Nat) : Parcel :=
  (Fin.ofNat 4 i, .fileData i (i * scpChunkSize) (chunkBytes content size i))

/-- The packets of the first `k` chunks. -/
def chunkParcels (content : Bytes) (size k : Nat) : List Parcel :=
  (List.range k).map (chunkParcel content size)

/-- The packets of a file. -/
def fileParcels (remotePath : Path) (st : Stat) (content : Bytes) : List Parcel :=
  (0, .fileMeta remotePath st.size st.mode .regular (totalChunks st.size)) ::
    chunkParcels content st.size (totalChunks st.size)

/-- A read that `O_DIRECT` allows, into the slot `s`. `posix_memalign` puts `session_buf` at the
start of a page. -/
structure PageRead (s : Slot) (addr len off : Nat) : Prop where
  buffer : ∀ sessionBuf, 4096 ∣ sessionBuf → 4096 ∣ sessionBuf + addr
  length : 4096 ∣ len
  offset : 4096 ∣ off
  slot : InSlot s addr len

/-! ## The size in chunks -/

variable {content : Bytes} {size i k : Nat}

/-- The C expressions of the chunk loop stay in their types. -/
theorem totalChunks_exact (h : size ≤ (2 ^ 32 - 1) * scpChunkSize) :
    totalChunks size = (size + scpChunkSize - 1) / scpChunkSize := by
  have hwide : size + scpChunkSize ≤ 2 ^ 63 := by
    rw [scpChunkSize_eq] at *
    omega
  rw [totalChunks_eq hwide]
  refine Nat.mod_eq_of_lt ?_
  rw [scpChunkSize_eq] at *
  omega

theorem chunk_starts (h : size ≤ (2 ^ 32 - 1) * scpChunkSize) :
    i < totalChunks size ↔ i * scpChunkSize < size := by
  rw [totalChunks_exact h, scpChunkSize_eq]
  omega

theorem totalChunks_mul (h : size ≤ (2 ^ 32 - 1) * scpChunkSize) :
    size ≤ totalChunks size * scpChunkSize := by
  rw [totalChunks_exact h, scpChunkSize_eq]
  omega

theorem length_chunkBytes (h : size ≤ content.length) :
    (chunkBytes content size i).length = min size ((i + 1) * scpChunkSize) - i * scpChunkSize := by
  rw [chunkBytes, List.length_take, List.length_drop, List.length_take, Nat.succ_mul]
  omega

theorem chunkBytes_length_pos (h : size ≤ content.length) (hi : i * scpChunkSize < size) :
    0 < (chunkBytes content size i).length := by
  have hpos : 0 < scpChunkSize := by decide
  rw [length_chunkBytes h, Nat.succ_mul]
  omega

theorem chunkParcels_succ (k : Nat) :
    chunkParcels content size (k + 1) =
      chunkParcels content size k ++ [chunkParcel content size k] := by
  simp [chunkParcels, List.range_succ]

theorem chunkParcels_prefix {m : Nat} (h : k ≤ m) :
    chunkParcels content size k <+: chunkParcels content size m := by
  obtain ⟨d, rfl⟩ := Nat.exists_eq_add_of_le h
  rw [chunkParcels, chunkParcels, List.range_add, List.map_append]
  exact List.prefix_append _ _

/-- Put together, the chunks are the file. -/
theorem flatMap_chunkBytes (k : Nat) :
    (List.range k).flatMap (chunkBytes content size) =
      (content.take size).take (k * scpChunkSize) := by
  induction k with
  | zero => simp
  | succ k ih =>
    rw [List.range_succ, List.flatMap_append, ih, Nat.add_mul, Nat.one_mul, List.take_add]
    simp [chunkBytes]

/-! ## Runs -/

/-- What holds where the sender asks for an operation while it sends the file: the packets so far
begin those of the file, reads with `O_DIRECT` are page reads into the current slot, the callback
hears of no more than the file, and `total_bytes` does not wrap if there is room for the file on
top of the `counted` bytes before it. -/
def FileDuty (direct : Bool) (size counted : Nat) (parcels : List Announced) (o : Op)
    (st : State) : Prop :=
  st.ledger.sent <+: parcels ∧ match o with
    | .pread _ addr len off => direct = true → PageRead st.ctx.currentSlot addr len off
    | .update (.addBytes k) => counted + size < 2 ^ 64 → st.ctx.totalBytes.toNat + k < 2 ^ 64
    | .progress offset fileSize => offset ≤ size ∧ fileSize = size
    | _ => True

/-- The precondition of a part of the sender that sends the file. -/
abbrev Sends {α : Type} (cfg : Config) (W : World) (direct : Bool) (size counted : Nat)
    (parcels : List Announced) (n : Nat) (p : Sender α) (Q : α → State → Prop) (s : State) : Prop :=
  wp (bodies cfg) (semantics W) ⟨FileDuty direct size counted parcels, fun _ _ => True⟩ n p Q s

/-- Nothing was read, laid out, pointed at, sent or counted. -/
structure Untouched (s t : State) : Prop where
  mem : t.mem = s.mem
  sent : t.ledger.sent = s.ledger.sent
  phase : t.ledger.phase = s.ledger.phase
  sge : t.ctx.sessionSge = s.ctx.sessionSge
  slot : t.ctx.currentSlot = s.ctx.currentSlot
  bytes : t.ctx.totalBytes = s.ctx.totalBytes

variable {cfg : Config} {W : World} {direct : Bool} {counted : Nat}
  {parcels : List Announced} {n : Nat} {α β : Type}
  {s t : State} {fd : Handle} {path : Path} {st : Stat}

theorem Untouched.next {o : Op} {x : Response o} (h : Untouched s t) (ho : Silent o) :
    Untouched s (next o t x) := by
  cases o with
  | update u =>
    cases u with
    | setSge | nextSlot | restart | addBytes => exact ho.elim
    | _ => exact ⟨h.mem, h.sent, h.phase, h.sge, h.slot, h.bytes⟩
  | store | pread | postWrite | postSend | progress | stat | lstat | openFile | readlink
  | opendir =>
    exact ho.elim
  | undefined => nomatch x
  | modifyQp | postRecv | waitCompletion =>
    cases x <;> exact ⟨h.mem, h.sent, h.phase, h.sge, h.slot, h.bytes⟩
  | _ => exact ⟨h.mem, h.sent, h.phase, h.sge, h.slot, h.bytes⟩

theorem sends_silent {p : Sender α} (hp : Program.Only Silent Polls p)
    (hs : s.ledger.sent <+: parcels) :
    Sends cfg W direct size counted parcels n p (fun _ t => Untouched s t) s := by
  refine hp.wp_keeps (fun c hc => silent_of_working (polls_working cfg c hc)) ?_
    (fun _ _ _ => trivial) (fun _ _ _ ho h => h.next ho) ⟨rfl, rfl, rfl, rfl, rfl, rfl⟩
  rintro o t ho ht
  refine ⟨ht.sent ▸ hs, ?_⟩
  cases o with
  | update u => cases u <;> trivial
  | _ => trivial

theorem sends_store {addr : Nat} {bs : Bytes} {f : Unit → Sender α} {Q : α → State → Prop}
    (hs : s.ledger.sent <+: parcels)
    (h : ∀ mem, mem = s.mem.store addr bs →
      Sends cfg W direct size counted parcels n (f ()) Q { s with mem := mem }) :
    Sends cfg W direct size counted parcels n (store addr bs >>= f) Q s :=
  meets_ask ⟨hs, trivial⟩ fun _ _ _ => h _ rfl

/-- The session is set up with the request's own entries and target. -/
theorem establishSession_sends {wr : TransWr} (hs : s.ledger.sent <+: parcels) :
    Sends cfg W direct size counted parcels n (establishSession wr) (fun r t => Untouched s t ∧
      ∀ wr', r = some wr' → wr'.sges = wr.sges ∧ wr'.remoteOffset = wr.remoteOffset) s := by
  have hself : Untouched s s := ⟨rfl, rfl, rfl, rfl, rfl, rfl⟩
  refine meets_ask ⟨hs, trivial⟩ fun c _ _ => wp.ite (fun _ => ?_) fun _ => ?_
  · exact wp.done ⟨hself, fun _ h => by cases h; exact ⟨rfl, rfl⟩⟩
  refine wp.bind (R := fun r t => Untouched s t ∧
    ∀ wr', r = some wr' → wr'.sges = wr.sges ∧ wr'.remoteOffset = wr.remoteOffset) ?_ ?_
  · refine meets_ask ⟨hs, trivial⟩ fun _ _ _ => wp.ite (fun _ => wp.done ⟨hself, nofun⟩) fun _ => ?_
    refine wp.bind (sends_silent rdmaTransInit_silent hs) fun r t ht => ?_
    refine wp.ite (fun _ => wp.done ⟨ht, nofun⟩) fun _ => ?_
    exact wp.done ⟨ht, fun _ h => by cases h; exact ⟨rfl, rfl⟩⟩
  rintro r t ⟨ht, hwr⟩
  cases r with
  | none => exact wp.done ⟨ht, nofun⟩
  | some wr' =>
    refine meets_ask ⟨ht.sent ▸ hs, trivial⟩ fun _ _ _ => ?_
    refine wp.done ⟨ht.next (o := .update .establish) trivial, fun _ h => ?_⟩
    cases h
    exact hwr _ rfl

/-- What a part leaves that sends the packets up to `upTo`, and has counted `total` bytes, when it
returns 0. -/
abbrev SentUpTo (parcels upTo : List Announced) (total : Nat) (r : Int) (t : State) : Prop :=
  t.ledger.sent <+: parcels ∧
    (r = 0 → t.ledger.sent = upTo ∧ t.ctx.totalBytes = UInt64.ofNat total)

/-- A posted request is the write of what its entries gather. -/
theorem rdmaTransPost_sends {wr : TransWr} (hs : s.ledger.sent <+: parcels) :
    Sends cfg W direct size counted parcels n (rdmaTransPost wr) (fun r t => t.mem = s.mem ∧
      t.ledger.sent = s.ledger.sent ∧ t.ctx = s.ctx ∧ (r = 0 → t.ledger.phase =
        .written (slotAt wr.remoteOffset) (gather s.mem (wr.sges.resolve s.ctx)))) s := by
  refine wp.bind (R := fun r t => r = wr.sges.resolve s.ctx ∧ t = s) ?_ ?_
  · cases wr.sges with
    | session =>
      refine meets_ask ⟨hs, trivial⟩ fun c hc _ => ?_
      obtain rfl : c = s.ctx := hc
      exact wp.done ⟨rfl, rfl⟩
    | own sges => exact wp.done ⟨rfl, rfl⟩
  rintro _ _ ⟨rfl, rfl⟩
  refine meets_ask ⟨hs, trivial⟩ fun ok _ _ => ?_
  cases ok with
  | true => exact wp.done ⟨rfl, rfl, rfl, fun _ => rfl⟩
  | false =>
    refine meets_ask ⟨hs, trivial⟩ fun _ _ _ => wp.done ⟨rfl, rfl, rfl, nofun⟩

/-- A read at the start of a chunk brings the chunk, however much the file has grown. -/
theorem take_grown {grown : Bytes} (hpre : content <+: grown) (hlen : size ≤ content.length)
    (hi : i * scpChunkSize < size) :
    (grown.drop (i * scpChunkSize)).take (chunkToRead size (i * scpChunkSize)) =
      chunkBytes content size i := by
  obtain ⟨rest, rfl⟩ := hpre
  have hto : chunkToRead size (i * scpChunkSize) = min scpChunkSize (size - i * scpChunkSize) := by
    unfold chunkToRead
    split <;> omega
  rw [chunkBytes, List.drop_take, List.take_take, hto, List.drop_append_of_le_length (by omega),
    List.take_append_of_le_length]
  rw [List.length_drop]
  omega

/-- Both kinds of read leave the chunk in the slot. -/
theorem readChunk_sends {x : Slot} {off : Nat} (h : HoldsFile W path st content)
    (hs : s.ledger.sent <+: parcels) (hslot : s.ctx.currentSlot = x)
    (hoff : off = i * scpChunkSize) (hi : off < st.size) :
    Sends cfg W direct st.size counted parcels n
      (readChunk fd direct (slotBase x + scpDataOffset) (chunkToRead st.size off) off)
      (fun r t => ∃ data, t = { s with mem := s.mem.store (slotBase x + scpDataOffset) data } ∧
        r = some (chunkBytes content st.size i).length ∧
        data.take (chunkToRead st.size off) = chunkBytes content st.size i) s := by
  obtain ⟨hto, -⟩ := chunkToRead_le st.size off hi.le
  have hchunk : ∀ grown, content <+: grown →
      (grown.drop off).take (chunkToRead st.size off) = chunkBytes content st.size i := by
    subst hoff
    exact fun _ hpre => take_grown hpre h.long hi
  unfold readChunk
  cases direct with
  | true =>
    have hpage : PageRead s.ctx.currentSlot (slotBase x + scpDataOffset)
        (alignedSize (chunkToRead st.size off)) off := by
      refine ⟨fun buf hbuf => ?_, Nat.dvd_mul_left _ _, ?_,
        hslot ▸ inSlot_data (alignedSize_le hto)⟩
      · simp only [slotBase, scpDataOffset_eq, scpCombinedChunkSize_eq]
        omega
      · rw [hoff, scpChunkSize_eq]
        omega
    have hround : chunkToRead st.size off ≤ alignedSize (chunkToRead st.size off) := by
      unfold alignedSize
      omega
    refine meets_ask (o := .pread _ _ _ _) ⟨hs, fun _ => hpage⟩ fun r _ hr => ?_
    obtain ⟨grown, hpre, rfl⟩ := h.read _ _ _ _ r hr
    refine wp.done ⟨_, rfl, ?_, ?_⟩
    · rw [← hchunk grown hpre, List.length_take, List.length_take]
      congr 1
      omega
    · rw [List.take_take, min_eq_left hround, hchunk grown hpre]
  | false =>
    refine meets_ask (o := .pread _ _ _ _) ⟨hs, fun h => absurd h Bool.false_ne_true⟩
      fun r _ hr => ?_
    obtain ⟨grown, hpre, rfl⟩ := h.read _ _ _ _ r hr
    refine wp.done ⟨_, rfl, ?_, ?_⟩
    · rw [← hchunk grown hpre]
    · rw [List.take_take, min_self, hchunk grown hpre]

/-- A part of the loop that polls fails or goes on. -/
theorem sends_step {p : Sender Int} {rest : Sender Int} {upTo : List Announced} {total : Nat}
    {c : Int → Prop}
    [DecidablePred c] (hp : Program.Only Silent Polls p) (hs : s.ledger.sent <+: parcels)
    (hrest : ∀ t, Untouched s t →
      Sends cfg W direct size counted parcels n rest (SentUpTo parcels upTo total) t) :
    Sends cfg W direct size counted parcels n (do
      if c (← p) then
        return -1
      rest) (SentUpTo parcels upTo total) s := by
  refine wp.bind (sends_silent hp hs) fun r t ht => wp.ite (fun _ => ?_) fun _ => hrest t ht
  exact wp.done ⟨ht.sent ▸ hs, nofun⟩

/-- The post of a request and of its signal. -/
theorem postPacket_sends {wr : TransWr} {msg : Cdc} {rest : Sender Int}
    {upTo : List Announced} {total : Nat}
    {bytes : Bytes} (hs : s.ledger.sent <+: parcels)
    (hbytes : gather s.mem (wr.sges.resolve s.ctx) = bytes)
    (hrest : ∀ t, t.mem = s.mem → t.ctx = s.ctx →
      t.ledger.sent = s.ledger.sent ++ [⟨slotAt wr.remoteOffset, bytes⟩] →
      Sends cfg W direct size counted parcels n rest (SentUpTo parcels upTo total) t) :
    Sends cfg W direct size counted parcels n (do
      if (← rdmaTransPost wr) ≠ 0 then
        return -1
      if !(← postSend msg) then
        return -1
      rest) (SentUpTo parcels upTo total) s := by
  refine wp.bind (rdmaTransPost_sends hs) ?_
  rintro r t ⟨hmem, hsent, hctx, hphase⟩
  have hst : t.ledger.sent <+: parcels := hsent ▸ hs
  refine wp.ite (fun _ => wp.done ⟨hst, nofun⟩) fun hr => ?_
  refine meets_ask ⟨hst, trivial⟩ fun ok _ _ => ?_
  cases ok with
  | false => exact wp.done ⟨hst, nofun⟩
  | true =>
    have hann := Ledger.announce_written (hphase (not_not.mp hr))
    refine hrest _ hmem hctx ?_
    change t.ledger.announce.sent = _
    rw [hann, hsent, hbytes]

theorem announced_prefix {before : List Announced} {i k : Nat} (h : i ≤ k) :
    before ++ announce (chunkParcels content size i) <+:
      before ++ announce (chunkParcels content size k) :=
  List.prefix_append_right_inj _ |>.mpr (List.IsPrefix.map _ ( chunkParcels_prefix h))

/-- A chunk that was read is laid out, posted and announced. -/
theorem sendChunk_sends {x : Slot} {off len m : Nat} {mem : Memory} {data payload : Bytes}
    {rest : Sender Int} {upTo : List Announced} {total : Nat} (hs : s.ledger.sent <+: parcels)
    (hmem : s.mem = mem.store (slotBase x + scpDataOffset) data)
    (hdata : data.take len = payload) (hm : m + 1 = payload.length)
    (hrest : ∀ t, t.ctx.currentSlot = s.ctx.currentSlot →
      t.ctx.totalBytes = s.ctx.totalBytes →
      t.ledger.sent = s.ledger.sent ++ announce [(x, .fileData i off payload)] →
      Sends cfg W direct size counted parcels n rest (SentUpTo parcels upTo total) t) :
    Sends cfg W direct size counted parcels n (do
      store (slotBase x) (dataChunkHeader i off (m + 1))
      if (← postAckRecv x) ≠ 0 then
        return -1
      if (← rdmaTransPost ⟨.own [⟨slotBase x, dataChunkSize⟩, ⟨slotBase x + scpDataOffset, m + 1⟩],
          dataChunkSize + (m + 1), slotBase x⟩) ≠ 0 then
        return -1
      if !(← postSend (Cdc.dataReady x)) then
        return -1
      rest) (SentUpTo parcels upTo total) s := by
  subst hdata
  refine sends_store hs fun mem' hmem' => ?_
  refine sends_step (c := (· ≠ 0)) (silent_of_working (postAckRecv_working _)) hs fun t ht => ?_
  have hsent : t.ledger.sent = s.ledger.sent := ht.sent
  have hgather : gather t.mem [⟨slotBase x, dataChunkSize⟩, ⟨slotBase x + scpDataOffset, m + 1⟩] =
      (Packet.fileData i off (data.take len)).encode := by
    have hlaid : t.mem = mem' := ht.mem
    rw [hlaid, hmem', hmem, hm]
    exact gather_chunk
  refine postPacket_sends (hsent ▸ hs) hgather fun u _ hctx hsentu => ?_
  refine hrest u (hctx ▸ ht.slot) (hctx ▸ ht.bytes) ?_
  rw [hsentu, hsent, slotAt_slotBase, announce_cons, announce_nil]

theorem chunkLoop_sends {before : List Announced} {remaining off : Nat}
    (h : HoldsFile W path st content)
    (hpre : ∀ k ≤ totalChunks st.size,
      before ++ announce (chunkParcels content st.size k) <+: parcels)
    (hi : i + remaining = totalChunks st.size) (hoff : off = min (i * scpChunkSize) st.size)
    (hslot : s.ctx.currentSlot = Fin.ofNat 4 i)
    (htotal : s.ctx.totalBytes = UInt64.ofNat (counted + off))
    (hs : s.ledger.sent = before ++ announce (chunkParcels content st.size i)) :
    Sends cfg W direct st.size counted parcels n (chunkLoop fd direct st.size remaining i off)
      (SentUpTo parcels (before ++ announce (chunkParcels content st.size (totalChunks st.size)))
        (counted + st.size)) s := by
  induction remaining generalizing s i off with
  | zero =>
    obtain rfl : i = totalChunks st.size := hi
    rw [min_eq_right (totalChunks_mul h.small)] at hoff
    exact wp.done ⟨hs ▸ hpre _ le_rfl, fun _ => ⟨hs, hoff ▸ htotal⟩⟩
  | succ remaining ih =>
    have hlt : i < totalChunks st.size := by omega
    have hstart := (chunk_starts h.small).mp hlt
    rw [min_eq_left hstart.le] at hoff
    have hsent : s.ledger.sent <+: parcels := hs ▸ hpre i hlt.le
    rw [chunkLoop]
    refine meets_ask ⟨hsent, trivial⟩ fun x hx _ => ?_
    obtain rfl : x = Fin.ofNat 4 i := Eq.trans hx hslot
    refine sends_step (silent_of_working (waitForSlot_working _)) hsent fun t ht => ?_
    have hsentt : t.ledger.sent <+: parcels := ht.sent ▸ hsent
    refine wp.bind (readChunk_sends h hsentt (ht.slot.trans hslot) hoff (hoff ▸ hstart)) ?_
    rintro r _ ⟨data, rfl, hr, hdata⟩
    have hpos := chunkBytes_length_pos h.long hstart
    obtain _ | _ | m := r
    · cases hr
    · rw [← Option.some.inj hr] at hpos
      exact absurd hpos (lt_irrefl 0)
    have hm := Option.some.inj hr
    refine sendChunk_sends hsentt rfl hdata hm fun v hcur hbytes hsentv => ?_
    have hnext : v.ledger.sent = before ++ announce (chunkParcels content st.size (i + 1)) := by
      have hsentst : t.ledger.sent = s.ledger.sent := ht.sent
      rw [hsentv, chunkParcels_succ, announce_append, ← List.append_assoc, ← hs, ← hsentst,
        chunkParcel, hoff]
    have hsentn : v.ledger.sent <+: parcels := hnext ▸ hpre (i + 1) hlt
    -- the callback hears of the end of this chunk, where the next one starts
    have hend : off + (m + 1) = min ((i + 1) * scpChunkSize) st.size := by
      rw [hm, length_chunkBytes h.long, hoff, Nat.succ_mul]
      omega
    have htotalv : v.ctx.totalBytes = UInt64.ofNat (counted + off) :=
      hbytes.trans (ht.bytes.trans htotal)
    have hroom : counted + st.size < 2 ^ 64 → v.ctx.totalBytes.toNat + (m + 1) < 2 ^ 64 := by
      intro hroom
      rw [htotalv, UInt64.toNat_ofNat']
      omega
    refine meets_ask ⟨hsentn, trivial⟩ fun _ _ _ => meets_ask ⟨hsentn, trivial⟩ fun _ _ _ => ?_
    refine meets_ask ⟨hsentn, hroom⟩ fun _ _ _ => ?_
    refine meets_ask (o := .progress _ _) ⟨hsentn, ?_, rfl⟩ fun _ _ _ => ?_
    · rw [hend]
      exact min_le_right _ _
    refine sends_step (silent_of_working (harvestCompletions_working _ _)) hsentn fun w hw => ?_
    refine ih (by omega) hend (hw.slot.trans (ofNat_add_one i)) ?_ (hw.sent.trans hnext)
    rw [← Nat.add_assoc, UInt64.ofNat_add, ← htotalv]
    exact hw.bytes

/-- A control packet that is laid out is sent. -/
theorem scpRdmaSendSync_sends {wrLen total : Nat} {bytes : Bytes} (hs : s.ledger.sent <+: parcels)
    (hbytes : gather s.mem [s.ctx.sessionSge] = bytes)
    (htotal : s.ctx.totalBytes = UInt64.ofNat total)
    (hnext : s.ledger.sent ++ [⟨0, bytes⟩] <+: parcels) :
    Sends cfg W direct size counted parcels n (scpRdmaSendSync ⟨.session, wrLen, 0⟩)
      (SentUpTo parcels (s.ledger.sent ++ [⟨0, bytes⟩]) total) s := by
  unfold scpRdmaSendSync
  refine sends_step (silent_of_working (waitForSlot_working 0)) hs fun t ht => ?_
  refine sends_step (c := (· ≠ 0)) (silent_of_working (postAckRecv_working 0)) (ht.sent ▸ hs)
    fun u hu => ?_
  have hsentu : u.ledger.sent = s.ledger.sent := hu.sent.trans ht.sent
  refine wp.bind (rdmaTransPost_sends (hsentu ▸ hs)) ?_
  rintro r v ⟨hmem, hsentv, hctx, hphase⟩
  have hsv : v.ledger.sent = s.ledger.sent := hsentv.trans hsentu
  refine wp.ite (fun _ => wp.done ⟨hsv ▸ hs, nofun⟩) fun hr => ?_
  refine wp.bind (sends_silent (silent_of_working waitForRdmaWriteCompletion_working)
    (hsv ▸ hs)) fun r w hw => ?_
  have hsw : w.ledger.sent = s.ledger.sent := hw.sent.trans hsv
  refine wp.ite (fun _ => wp.done ⟨hsw ▸ hs, nofun⟩) fun _ => ?_
  refine meets_ask ⟨hsw ▸ hs, trivial⟩ fun _ _ _ => ?_
  refine meets_ask (o := .postSend _) ⟨hsw ▸ hs, trivial⟩ fun ok _ _ => ?_
  cases ok with
  | false => exact meets_ask ⟨hsw ▸ hs, trivial⟩ fun _ _ _ => wp.done ⟨hsw ▸ hs, nofun⟩
  | true =>
    have hwritten : w.ledger.phase = .written 0 bytes := by
      rw [hw.phase, hphase (not_not.mp hr), ← hbytes]
      have hmemu : u.mem = s.mem := hu.mem.trans ht.mem
      have hsgeu : u.ctx.sessionSge = s.ctx.sessionSge := hu.sge.trans ht.sge
      have hslot : slotAt 0 = 0 := by simpa [slotBase] using slotAt_slotBase 0
      rw [hmemu, SgeList.resolve, hsgeu, hslot]
    have hann : w.ledger.announce.sent = s.ledger.sent ++ [⟨0, bytes⟩] := by
      rw [Ledger.announce_written hwritten, hsw]
    refine sends_step (silent_of_working (waitForSlot_working 0)) (hann ▸ hnext) fun x hx => ?_
    refine wp.done ⟨(hx.sent.trans hann) ▸ hnext, fun _ => ⟨hx.sent.trans hann, ?_⟩⟩
    have hctxv : v.ctx.totalBytes = u.ctx.totalBytes := congrArg Ctx.totalBytes hctx
    exact hx.bytes.trans (hw.bytes.trans (hctxv.trans (hu.bytes.trans (ht.bytes.trans htotal))))

theorem scpSendFile_sends {remotePath : Path} (h : HoldsFile W path st content)
    (hopen : ∀ r : Option Handle, W (.openFile path true) r → r.isSome = direct)
    (htotal : s.ctx.totalBytes = UInt64.ofNat counted)
    (hp : parcels = s.ledger.sent ++ announce (fileParcels remotePath st content)) :
    Sends cfg W direct st.size counted parcels n (scpSendFile path remotePath)
      (SentUpTo parcels parcels (counted + st.size)) s := by
  have hpre : s.ledger.sent <+: parcels := hp ▸ List.prefix_append _ _
  obtain ⟨info, hinfo⟩ : ∃ p : Packet, p = .fileMeta remotePath st.size st.mode .regular
      (totalChunks st.size) := ⟨_, rfl⟩
  have hparcels : parcels = (s.ledger.sent ++ [⟨0, info.encode⟩]) ++
      announce (chunkParcels content st.size (totalChunks st.size)) := by
    rw [hp, fileParcels, announce_cons, hinfo, List.append_assoc]
    rfl
  have hmeta : s.ledger.sent ++ [⟨0, info.encode⟩] <+: parcels :=
    hparcels ▸ List.prefix_append _ _
  refine meets_ask ⟨hpre, trivial⟩ fun r _ hr => ?_
  rcases h.stat r hr with rfl | rfl
  swap
  · exact wp.done ⟨hpre, nofun⟩
  refine wp.bind (R := fun r t => s = t ∧ ∀ fd d, r = some (fd, d) → d = direct) ?_ ?_
  · refine meets_ask ⟨hpre, trivial⟩ fun r _ hr => ?_
    have hdirect := hopen r hr
    cases r with
    | some fd => exact wp.done ⟨rfl, fun _ _ h => by cases h; exact hdirect⟩
    | none =>
      refine meets_ask ⟨hpre, trivial⟩ fun r _ _ => ?_
      cases r with
      | some fd => exact wp.done ⟨rfl, fun _ _ h => by cases h; exact hdirect⟩
      | none => exact wp.done ⟨rfl, nofun⟩
  rintro src _ ⟨rfl, hsrc⟩
  obtain _ | ⟨fd, d⟩ := src
  · exact wp.done ⟨hpre, nofun⟩
  obtain rfl := hsrc fd d rfl
  have hclose : ∀ t : State, t.ledger.sent <+: parcels →
      Sends cfg W d st.size counted parcels n (do ask (.close fd); return (-1 : Int))
        (SentUpTo parcels parcels (counted + st.size)) t :=
    fun t ht => meets_ask ⟨ht, trivial⟩ fun _ _ _ => wp.done ⟨ht, nofun⟩
  rw [← hinfo]
  refine sends_store hpre fun mem hmem => ?_
  refine wp.bind (establishSession_sends hpre) ?_
  rintro wr t ⟨ht, hwr⟩
  have hsent : t.ledger.sent = s.ledger.sent := ht.sent
  obtain _ | ⟨sges, wrLen, remote⟩ := wr
  · exact hclose t (hsent ▸ hpre)
  obtain ⟨rfl, rfl⟩ := hwr _ rfl
  refine wp.bind (R := SentUpTo parcels (s.ledger.sent ++ [⟨0, info.encode⟩]) counted) ?_ ?_
  · refine meets_ask ⟨hsent ▸ hpre, trivial⟩ fun _ _ _ => ?_
    have hgather : gather t.mem [⟨0, fileMetaSize⟩] = info.encode := by
      have hlaid : t.mem = mem := ht.mem
      have hfit : fileMetaSize = info.encode.length := by
        rw [hinfo, Packet.length_encode]
      rw [gather, List.flatMap_singleton, hlaid, hmem, hfit]
      exact Memory.load_store_self _ _ _
    rw [← hsent]
    exact scpRdmaSendSync_sends
      (s := { t with ctx := Update.apply (.setSge ⟨0, fileMetaSize⟩) t.ctx })
      (hsent ▸ hpre) hgather (ht.bytes.trans htotal) (hsent ▸ hmeta)
  rintro ret u ⟨hu, hsentu⟩
  refine wp.ite (fun _ => hclose u hu) fun hret => ?_
  obtain ⟨hupto, htotalu⟩ := hsentu (not_not.mp hret)
  refine meets_ask ⟨hu, trivial⟩ fun _ _ _ => ?_
  refine wp.bind (R := SentUpTo parcels parcels (counted + st.size)) ?_ ?_
  · have hbefore : ∀ k ≤ totalChunks st.size, (s.ledger.sent ++ [⟨0, info.encode⟩]) ++
        announce (chunkParcels content st.size k) <+: parcels :=
      fun k hk => hparcels ▸ announced_prefix hk
    refine (chunkLoop_sends (i := 0) h hbefore (Nat.zero_add _) (by simp) rfl htotalu ?_).mono ?_
    · exact hupto.trans (List.append_nil _).symm
    · exact fun _ _ hend => ⟨hend.1, fun h0 => ⟨(hend.2 h0).1.trans hparcels.symm, (hend.2 h0).2⟩⟩
  rintro ret v ⟨hv, hsentv⟩
  refine wp.ite (fun _ => hclose v hv) fun hret => ?_
  obtain ⟨hall, htotalv⟩ := hsentv (not_not.mp hret)
  refine wp.bind (sends_silent (silent_of_working drainPendingAcks_working) hv)
    fun ret w hw => ?_
  have hsentw : w.ledger.sent = parcels := hw.sent.trans hall
  have hw' : w.ledger.sent <+: parcels := hsentw ▸ List.prefix_refl _
  refine wp.ite (fun _ => hclose w hw') fun _ => ?_
  refine meets_ask ⟨hw', trivial⟩ fun _ _ _ => meets_ask ⟨hw', trivial⟩ fun _ _ _ => ?_
  exact wp.done ⟨hw', fun _ => ⟨hsentw, hw.bytes.trans htotalv⟩⟩

/-! ## The chunks and the runs -/

/-- The chunks cover the first `size` bytes without gap or overlap, and none is empty. -/
structure Chunked (content : Bytes) (size : Nat) : Prop where
  covers : ∀ i < totalChunks size, chunkBytes content size i =
    (content.drop (i * scpChunkSize)).take
      (min size ((i + 1) * scpChunkSize) - i * scpChunkSize)
  nonempty : ∀ i < totalChunks size, i * scpChunkSize < min size ((i + 1) * scpChunkSize)
  adjacent : ∀ i, i + 1 < totalChunks size →
    min size ((i + 1) * scpChunkSize) = (i + 1) * scpChunkSize
  all : size ≤ totalChunks size * scpChunkSize
  whole : (List.range (totalChunks size)).flatMap (chunkBytes content size) = content.take size

/-- The C expressions of the chunk loop stay in their types. `total_bytes` is left to `FileDuty`. -/
structure NoWrap (size : Nat) : Prop where
  rounding : size + scpChunkSize - 1 < 2 ^ 63
  count : (size + scpChunkSize - 1) / scpChunkSize < 2 ^ 32
  offset : ∀ i < totalChunks size,
    i * scpChunkSize ≤ size ∧ i * scpChunkSize + scpChunkSize < 2 ^ 63
  aligned : ∀ i < totalChunks size, chunkToRead size (i * scpChunkSize) + 4095 < 2 ^ 63
  request : ∀ n ≤ scpChunkSize, dataChunkSize + n < 2 ^ 32
  remote : ∀ s : Slot, slotBase s < 2 ^ 64

theorem chunked_of_small (hsmall : size ≤ (2 ^ 32 - 1) * scpChunkSize) :
    Chunked content size where
  covers i hi := by
    have hstart := (chunk_starts hsmall).mp hi
    have hmin : min scpChunkSize (size - i * scpChunkSize) =
        min size ((i + 1) * scpChunkSize) - i * scpChunkSize := by
      rw [Nat.succ_mul]
      omega
    rw [chunkBytes, List.drop_take, List.take_take, hmin]
  nonempty i hi := by
    have hpos : 0 < scpChunkSize := by decide
    have hstart := (chunk_starts hsmall).mp hi
    rw [Nat.succ_mul]
    omega
  adjacent i hi := min_eq_right ((chunk_starts hsmall).mp hi).le
  all := totalChunks_mul hsmall
  whole := by
    rw [flatMap_chunkBytes, List.take_take, min_eq_right (totalChunks_mul hsmall)]

theorem noWrap_of_small (hsmall : size ≤ (2 ^ 32 - 1) * scpChunkSize) : NoWrap size where
  rounding := by
    rw [scpChunkSize_eq] at *
    omega
  count := by
    rw [scpChunkSize_eq] at *
    omega
  offset i hi := by
    have hstart := (chunk_starts hsmall).mp hi
    refine ⟨hstart.le, (Nat.add_lt_add_right (hstart.trans_le hsmall) _).trans_le ?_⟩
    rw [scpChunkSize_eq]
    omega
  aligned i hi := by
    have hto := (chunkToRead_le size _ ((chunk_starts hsmall).mp hi).le).1
    exact (Nat.add_le_add_right hto 4095).trans_lt (by decide)
  request n hn := by
    have hheader : dataChunkSize < 2 ^ 12 := by decide
    rw [scpChunkSize_eq] at hn
    omega
  remote s := by
    simp only [slotBase, scpCombinedChunkSize_eq]
    omega

/-- In every run of `scp_send_file` the sender does its duty for a file with these bytes, and a run
that returns 0 has sent and counted all of it. -/
def FileRuns (cfg : Config) (W : World) (direct : Bool) (path remotePath : Path) (st : Stat)
    (content : Bytes) (s : State) : Prop :=
  let parcels := s.ledger.sent ++ announce (fileParcels remotePath st content)
  let counted := s.ctx.totalBytes.toNat
  ((scpSendFile path remotePath).system (bodies cfg) (semantics W) s).Invariant fun c =>
    (∀ o k, c.1 = .op o k → FileDuty direct st.size counted parcels o c.2) ∧
    ∀ r, c.1 = .done r → SentUpTo parcels parcels (counted + st.size) r c.2

/-- A file is sent in the same packets with `O_DIRECT` and without: the chunks of the size that
`stat` has seen. -/
theorem scpSendFile_chunks (cfg : Config) (remotePath : Path) (s : State)
    (h : HoldsFile W path st content)
    (hopen : ∀ r : Option Handle, W (.openFile path true) r → r.isSome = direct) :
    FileRuns cfg W direct path remotePath st content s ∧ Chunked content st.size ∧
      NoWrap st.size := by
  refine ⟨?_, chunked_of_small h.small, noWrap_of_small h.small⟩
  have htotal : s.ctx.totalBytes = UInt64.ofNat s.ctx.totalBytes.toNat := by simp
  have hv : Verified (bodies cfg) (semantics W) _ (scpSendFile path remotePath) _ s :=
    fun _ => scpSendFile_sends h hopen htotal rfl
  rintro ⟨_, t⟩ hc
  constructor
  · rintro o k rfl
    have hop : Verified (bodies cfg) (semantics W) _ (.op o k) _ t := hv.runs _ hc
    exact hop.duty
  · rintro r rfl
    have hdone : Verified (bodies cfg) (semantics W) _ (.done r) _ t := hv.runs _ hc
    exact hdone.post

/-- Two full chunks and five bytes more. -/
def threeChunks : Nat := 2 * scpChunkSize + 5

/-- The file has grown by a byte since `stat`, on a file system with `O_DIRECT`. -/
def growing : World
  | .stat _, r => r = some ⟨.regular, threeChunks, 0⟩
  | .openFile _ _, r => r = some []
  | .pread _ _ len off, r => r = some (((List.replicate (threeChunks + 1) 7).drop off).take len)
  | _, _ => True

theorem growing_holdsFile (path : Path) :
    HoldsFile growing path ⟨.regular, threeChunks, 0⟩ (List.replicate threeChunks 7) where
  stat _ h := .inl h
  read _ _ _ _ _ h := by
    refine ⟨List.replicate (threeChunks + 1) 7, ?_, h⟩
    rw [List.replicate_succ']
    exact List.prefix_append _ _
  long := List.length_replicate.ge
  small := by decide

theorem totalChunks_threeChunks : totalChunks threeChunks = 3 := by
  rw [totalChunks_eq (by decide)]
  decide

theorem scpSendFile_chunks_grown : totalChunks threeChunks = 3 ∧
    FileRuns ⟨false, false⟩ growing true [102] [102] ⟨.regular, threeChunks, 0⟩
        (List.replicate threeChunks 7) initState ∧
      Chunked (List.replicate threeChunks 7) threeChunks ∧ NoWrap threeChunks := by
  refine ⟨totalChunks_threeChunks,
    scpSendFile_chunks ⟨false, false⟩ [102] initState (growing_holdsFile [102]) fun r h => ?_⟩
  have hfd : r = some [] := h
  rw [hfd]
  rfl

end ScpRdma.Sender
