import ScpRdma.Foundations.Program
import ScpRdma.Protocol

/-!
# The advertised region

How the server comes to the region that it names to its peer: `sock_async_data` reads a length,
`mr_create` registers the buffers of the request, and `connect_qp` advertises the first buffer with
the length that was read. A buffer that `mr_create` allocates itself has that length; the buffer of
the session has its own.
-/
namespace ScpRdma.Connection.Region
open Foundations

/-- `sges[i].mr`. What `malloc` returned is not initialised. -/
inductive MrPointer where
  | null
  | uninitialised
  | region (rkey : UInt32)

/-- `rdma_trans_sge_t`; `none` is a null pointer. -/
structure Sge where
  buf : Option Nat
  bufLen : Nat
  mr : MrPointer

/-- What the set-up reads and writes of `rdma_trans_wr_t`; `none` is a null pointer. -/
structure Wr where
  wrLen : BitVec 64
  sges : Option (List Sge)

inductive Op where
  | readLength
  | malloc (size : Nat)
  | regMr (addr len : Nat)
  | cdcBuffers
  | queryGid
  | advertise (addr : Nat) (rkey : UInt32) (len : BitVec 64)
  | undefined

/-- `none` and `false` are failures. -/
def Response : Op → Type
  | .readLength => Option (BitVec 64)
  | .malloc _ => Option Nat
  | .regMr _ _ => Option UInt32
  | .cdcBuffers | .queryGid | .advertise _ _ _ => Bool
  | .undefined => Empty

def signature : Signature := ⟨Op, Response, Empty, nofun⟩

/-- The set-up calls no procedures. -/
def bodies : Bodies signature := fun c => Empty.elim c

/-- A part of the set-up. -/
abbrev SetUp := Program signature

abbrev ask (o : Op) : SetUp (Response o) := Program.ask (S := signature) o
abbrev cdcBuffers : SetUp Bool := ask .cdcBuffers
abbrev queryGid : SetUp Bool := ask .queryGid
abbrev advertise (addr : Nat) (rkey : UInt32) (len : BitVec 64) : SetUp Bool :=
  ask (.advertise addr rkey len)
def undefined (α : Type) : SetUp α := do return (← ask .undefined).elim

/-- The loop of `mr_create` that registers the buffers; the flag says that all are. -/
def registerAll : List Sge → SetUp (Bool × List Sge)
  | [] => return (true, [])
  | sge :: rest => do
    match ← ask (.regMr (sge.buf.getD 0) sge.bufLen) with
    | none => return (false, { sge with mr := .null } :: rest)
    | some rkey =>
      let (ok, rest) ← registerAll rest
      return (ok, { sge with mr := .region rkey } :: rest)

/-- The buffer is there already. -/
def Wr.hasBuffer (msg : Wr) : Bool :=
  match msg.sges with
  | some (sge :: _) => sge.buf.isSome
  | _ => false

/-- The part of `mr_create` that has a buffer; `none` is a failure of `malloc`. -/
def bufferOf (msg : Wr) (size : Nat) : SetUp (Option (List Sge)) := do
  if msg.hasBuffer then
    return msg.sges
  match ← ask (.malloc size) with
  | none => return none
  | some buf => return some [⟨some buf, size, .uninitialised⟩]

/-- `mr_create`; `remoteLen` is `res->remote_props->mrs.len`, if there are such. -/
def mrCreate (remoteLen : Option (BitVec 64)) (msg : Wr) : SetUp (Int × Wr) := do
  let size := if msg.wrLen ≠ 0 then msg.wrLen.toNat else (remoteLen.getD 0).toNat
  if size = 0 then
    return (1, msg)
  match ← bufferOf msg size with
  | none => return (1, { msg with sges := some [⟨none, size, .uninitialised⟩] })
  | some sges =>
    let (ok, sges) ← registerAll sges
    let msg := { msg with sges := some sges }
    if !ok then
      return (1, msg)
    if !(← cdcBuffers) then
      return (1, msg)
    return (0, msg)

/-- The record of `connect_qp`, as far as the region goes. -/
def sendRecord (msg : Wr) : SetUp Int := do
  match msg.sges with
  | some (sge :: _) =>
    match sge.mr with
    | .region rkey =>
      if !(← advertise (sge.buf.getD 0) rkey msg.wrLen) then
        return 1
      return 0
    | .null | .uninitialised => undefined Int
  | _ => undefined Int

/-- `connect_qp`, up to where the record is sent. -/
def connectQp (gid : Bool) (msg : Wr) : SetUp Int := do
  if gid then
    if !(← queryGid) then
      return 1
  sendRecord msg

/-- `scp_prepare_receive_resources` with `rdma_trans_init`, as far as the region goes. -/
def prepare (gid : Bool) (remoteLen : Option (BitVec 64)) (sges : Option (List Sge)) :
    SetUp Int := do
  match ← ask .readLength with
  | none => return -1
  | some len =>
    let (mr, msg) ← mrCreate remoteLen ⟨len, sges⟩
    let qp ← connectQp gid msg
    if mr ≠ 0 ∨ qp ≠ 0 then
      return -1
    return 0

/-! ## Registered memory -/

structure MemoryRegion where
  addr : Nat
  len : Nat
  rkey : UInt32

/-- The peer announces `len`; a new region has a new key. -/
def semantics (len : BitVec 64) : Semantics signature (List MemoryRegion) where
  allow
    | .readLength, _, r => r = some len ∨ r = none
    | .regMr _ _, regions, r => ∀ rkey, r = some rkey → ∀ m ∈ regions, m.rkey ≠ rkey
    | _, _, _ => True
  next
    | .regMr addr len, regions, some rkey => ⟨addr, len, rkey⟩ :: regions
    | _, regions, _ => regions

/-- The range lies inside the region that is registered under the key. -/
def Registered (regions : List MemoryRegion) (addr : Nat) (rkey : UInt32) (len : BitVec 64) :
    Prop :=
  ∃ m ∈ regions, m.rkey = rkey ∧ m.addr ≤ addr ∧ addr + len.toNat ≤ m.addr + m.len

/-- Where the buffer comes from: `scp_rdma_init` presets that of the session, at `buf`. -/
inductive Origin where
  | preset (buf : Nat)
  | allocated

def Origin.sges : Origin → Option (List Sge)
  | .preset buf => some [⟨some buf, scpMultiBufferTotalSize, .null⟩]
  | .allocated => none

/-- What is advertised is registered, in every run with a peer that announces `len`. -/
def Advertises (gid : Bool) (remoteLen : Option (BitVec 64)) (origin : Origin) (len : BitVec 64) :
    Prop :=
  (Program.system bodies (semantics len) (prepare gid remoteLen origin.sges) []).Invariant fun c =>
    ∀ addr rkey n k, c.1 = .op (.advertise addr rkey n) k → Registered c.2 addr rkey n

/-! ## Buffers that hold the announced length -/

abbrev regionDuties : Duties signature (List MemoryRegion) where
  op
    | .advertise addr rkey len, regions => Registered regions addr rkey len
    | _, _ => True
  call _ _ := True

/-- The buffer has `len` bytes, and what it is registered under has its bounds. -/
structure Sge.Covers (regions : List MemoryRegion) (len : BitVec 64) (sge : Sge) : Prop where
  holds : len.toNat ≤ sge.bufLen
  backed : ∀ rkey, sge.mr = .region rkey → ⟨sge.buf.getD 0, sge.bufLen, rkey⟩ ∈ regions

/-- All buffers of the request do. -/
def Wr.Covered (regions : List MemoryRegion) (msg : Wr) : Prop :=
  ∀ sges, msg.sges = some sges → ∀ sge ∈ sges, sge.Covers regions msg.wrLen

variable {announced len : BitVec 64} {regions : List MemoryRegion} {msg : Wr} {n : Nat}

theorem Sge.Covers.cons {sge : Sge} {m : MemoryRegion} (h : sge.Covers regions len) :
    sge.Covers (m :: regions) len :=
  ⟨h.holds, fun rkey hr => List.mem_cons_of_mem m (h.backed rkey hr)⟩

theorem registerAll_covers {sges : List Sge} (h : ∀ sge ∈ sges, sge.Covers regions len) :
    wp bodies (semantics announced) regionDuties n (registerAll sges)
      (fun r rs => ∀ sge, (sge ∈ r.2 ∨ sge.Covers regions len) → sge.Covers rs len) regions := by
  induction sges generalizing regions with
  | nil => exact wp.done fun sge hs => hs.resolve_left nofun
  | cons sge rest ih =>
    obtain ⟨hsge, hrest⟩ := List.forall_mem_cons.mp h
    refine wp.op (D := regionDuties) trivial ?_
    rintro (_ | rkey) -
    · -- the loop ends here, and this buffer is registered under nothing
      refine wp.done ?_
      rintro t (ht | ht)
      · rcases List.mem_cons.mp ht with rfl | ht
        · exact ⟨hsge.holds, nofun⟩
        · exact hrest t ht
      · exact ht
    · refine (ih fun t ht => (hrest t ht).cons).bind ?_
      rintro ⟨ok, sges⟩ rs hrs
      refine wp.done ?_
      rintro t (ht | ht)
      · rcases List.mem_cons.mp ht with rfl | ht
        · refine hrs _ (.inr ⟨hsge.holds, ?_⟩)
          rintro _ ⟨⟩
          exact List.mem_cons_self
        · exact hrs t (.inl ht)
      · exact hrs t (.inr ht.cons)

theorem bufferOf_covers {size : Nat} (h : msg.Covered regions) (hsize : msg.wrLen.toNat ≤ size) :
    wp bodies (semantics announced) regionDuties n (bufferOf msg size)
      (fun r rs => rs = regions ∧ ∀ sges, r = some sges →
        ∀ sge ∈ sges, sge.Covers regions msg.wrLen) regions := by
  rw [bufferOf]
  split
  · exact wp.done ⟨rfl, h⟩
  · refine wp.op (D := regionDuties) trivial ?_
    rintro (_ | buf) -
    · exact wp.done ⟨rfl, nofun⟩
    · refine wp.done ⟨rfl, ?_⟩
      rintro _ ⟨⟩ sge hs
      obtain rfl := List.mem_singleton.mp hs
      exact ⟨hsize, nofun⟩

theorem mrCreate_covers {remoteLen : Option (BitVec 64)} (h : msg.Covered regions) :
    wp bodies (semantics announced) regionDuties n (mrCreate remoteLen msg)
      (fun r rs => r.2.Covered rs) regions := by
  rw [mrCreate]
  generalize hsize : (if msg.wrLen ≠ 0 then msg.wrLen.toNat else (remoteLen.getD 0).toNat) = size
  have hlen : msg.wrLen.toNat ≤ size := by
    rw [← hsize]
    split
    · exact le_rfl
    · rename_i hzero
      rw [not_not.mp hzero]
      exact Nat.zero_le _
  split
  · exact wp.done h
  refine (bufferOf_covers h hlen).bind ?_
  rintro (_ | sges) _ ⟨rfl, hsges⟩
  · refine wp.done ?_
    rintro _ ⟨⟩ sge hs
    obtain rfl := List.mem_singleton.mp hs
    exact ⟨hlen, nofun⟩
  refine (registerAll_covers (hsges sges rfl)).bind ?_
  rintro ⟨ok, sges⟩ rs hrs
  have hmsg : Wr.Covered rs { msg with sges := some sges } := by
    rintro _ ⟨⟩ sge hs
    exact hrs sge (.inl hs)
  dsimp only
  split
  · exact wp.done hmsg
  · refine wp.op (D := regionDuties) trivial ?_
    rintro (_ | _) - <;> exact wp.done hmsg

/-- The record names no more than a buffer holds that covers the request. -/
theorem sendRecord_registered (h : msg.Covered regions) :
    wp bodies (semantics announced) regionDuties n (sendRecord msg) (fun _ _ => True) regions := by
  rw [sendRecord]
  split
  · rename_i sge rest hsges
    obtain ⟨hlen, hbacked⟩ := h _ hsges sge List.mem_cons_self
    split
    · rename_i rkey hmr
      refine wp.op (D := regionDuties) ⟨_, hbacked rkey hmr, rfl, le_rfl, by simpa using hlen⟩ ?_
      rintro (_ | _) - <;> exact wp.done trivial
    all_goals exact wp.op (D := regionDuties) trivial nofun
  · exact wp.op (D := regionDuties) trivial nofun

theorem connectQp_registered {gid : Bool} (h : msg.Covered regions) :
    wp bodies (semantics announced) regionDuties n (connectQp gid msg) (fun _ _ => True)
      regions := by
  cases gid with
  | false => exact sendRecord_registered h
  | true =>
    refine wp.op (D := regionDuties) trivial ?_
    rintro (_ | _) -
    · exact wp.done trivial
    · exact sendRecord_registered h

theorem prepare_registered {gid : Bool} {remoteLen : Option (BitVec 64)} {sges : Option (List Sge)}
    (h : Wr.Covered [] ⟨len, sges⟩) :
    Verified bodies (semantics len) regionDuties (prepare gid remoteLen sges)
      (fun _ _ => True) [] := by
  intro n
  refine wp.op (D := regionDuties) trivial ?_
  rintro _ (rfl | rfl)
  case inr => exact wp.done trivial
  refine (mrCreate_covers h).bind ?_
  rintro ⟨mr, msg⟩ rs hmsg
  refine (connectQp_registered hmsg).bind ?_
  rintro qp _ -
  split <;> exact wp.done trivial

/-- A buffer that `mr_create` allocates holds what the peer announces, the buffer of the session
its own size. -/
theorem Origin.covered {origin : Origin}
    (h : origin = .allocated ∨ len.toNat ≤ scpMultiBufferTotalSize) :
    Wr.Covered [] ⟨len, origin.sges⟩ := by
  cases origin with
  | allocated => exact nofun
  | preset buf =>
    rintro _ ⟨⟩ sge hs
    obtain rfl := List.mem_singleton.mp hs
    exact ⟨h.resolve_left nofun, nofun⟩

/-! ## A longer length -/

/-- The buffer of the session may be registered whatever the peer announces. -/
theorem mrCreate_preset {remoteLen : Option (BitVec 64)} {buf : Nat} (hlen : len ≠ 0) :
    Program.Outcome (semantics len) (mrCreate remoteLen ⟨len, (Origin.preset buf).sges⟩) []
      (0, ⟨len, some [⟨some buf, scpMultiBufferTotalSize, .region 0⟩]⟩)
      [⟨buf, scpMultiBufferTotalSize, 0⟩] := by
  have hsize : ¬ (if len ≠ 0 then len.toNat else (remoteLen.getD 0).toNat) = 0 := by
    rw [if_pos hlen]
    exact fun hzero => hlen (BitVec.eq_of_toNat_eq hzero)
  rw [mrCreate, if_neg hsize]
  refine .op (some 0) ?_ (.op true trivial .done)
  exact fun _ _ => nofun

/-- It is then advertised with that length. -/
theorem advertises_preset {gid : Bool} {remoteLen : Option (BitVec 64)} {buf : Nat}
    (hlen : len ≠ 0) (h : Advertises gid remoteLen (.preset buf) len) :
    len.toNat ≤ scpMultiBufferTotalSize := by
  have hcreate := Program.after h (some len) (.inl rfl)
  have hconnect := Program.past (p := mrCreate remoteLen ⟨len, (Origin.preset buf).sges⟩)
    hcreate (mrCreate_preset hlen)
  have hrecord : Registered [⟨buf, scpMultiBufferTotalSize, 0⟩] buf 0 len := by
    cases gid with
    | false => exact Program.now hconnect _ _ _ _ rfl
    | true => exact Program.now (Program.after hconnect true trivial) _ _ _ _ rfl
  obtain ⟨m, hm, -, -, hfit⟩ := hrecord
  obtain rfl := List.mem_singleton.mp hm
  exact Nat.le_of_add_le_add_left hfit

/-- `connect_qp` advertises `wr_len` bytes: a buffer that `mr_create` allocated has them, that of
the session only if they are no more than its own. -/
theorem advertises_iff (gid : Bool) (remoteLen : Option (BitVec 64)) (origin : Origin)
    (len : BitVec 64) :
    Advertises gid remoteLen origin len ↔
      origin = .allocated ∨ len.toNat ≤ scpMultiBufferTotalSize := by
  constructor
  · intro h
    cases origin with
    | allocated => exact .inl rfl
    | preset buf =>
      by_cases hlen : len = 0
      · exact .inr (hlen ▸ Nat.zero_le _)
      · exact .inr (advertises_preset hlen h)
  · rintro h ⟨_, regions⟩ hc addr rkey n k rfl
    have hv : Verified bodies (semantics len) regionDuties (.op (.advertise addr rkey n) k)
      (fun _ _ => True) regions := (prepare_registered (Origin.covered h)).runs _ hc
    exact hv.duty

/-- A peer that announces `SCP_MULTI_BUFFER_TOTAL_SIZE + 1` bytes. -/
theorem not_advertises : ¬ ∀ (gid : Bool) (remoteLen : Option (BitVec 64)) (origin : Origin)
    (len : BitVec 64), Advertises gid remoteLen origin len := by
  intro h
  have hfit := advertises_preset (by decide) (h false none (.preset 0) 67125249#64)
  exact absurd hfit (by decide)

end ScpRdma.Connection.Region
