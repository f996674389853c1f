import ScpRdma.Foundations.Endian

/-!
# Connection data

What the two sides tell each other before the queue pairs are connected, as `connect_qp`
writes it into a packed record and reads it back. Every field travels in network order; the
`lid` is written by `htons` and read by `ntohl`.
-/
namespace ScpRdma.Connection
open Foundations

/-- `cm_mr_data_t` -/
structure CmMrData where
  rkey : BitVec 32
  addr : BitVec 64
  len : BitVec 64
  deriving DecidableEq

/-- `cm_con_data_ex_t` -/
@[ext] structure CmConData where
  lid : BitVec 16
  gid : Vector UInt8 16
  qpNum : BitVec 32
  mrs : CmMrData
  deriving DecidableEq

/-- `sizeof(struct cm_con_data_ex_t)` -/
def cmConDataSize : Nat := 42

def htons (o : ByteOrder) (x : BitVec 16) : BitVec 16 := o.hton 2 x
def htonl (o : ByteOrder) (x : BitVec 32) : BitVec 32 := o.hton 4 x
def htonll (o : ByteOrder) (x : BitVec 64) : BitVec 64 := o.hton 8 x
def ntohl (o : ByteOrder) (x : BitVec 32) : BitVec 32 := o.hton 4 x
def ntohll (o : ByteOrder) (x : BitVec 64) : BitVec 64 := o.hton 8 x

theorem ntohl_htonl (o : ByteOrder) (x : BitVec 32) : ntohl o (htonl o x) = x :=
  o.hton_hton (k := 4) x

theorem ntohll_htonll (o : ByteOrder) (x : BitVec 64) : ntohll o (htonll o x) = x :=
  o.hton_hton (k := 8) x

/-- Read as 32 bits, the two bytes of a swapped `lid` end in the upper half. -/
theorem ntohl_htons (o : ByteOrder) (x : BitVec 16) :
    (ntohl o ((htons o x).setWidth 32)).setWidth 16 = if o = .big then x else 0#16 := by
  cases o with
  | big => simp [ntohl, htons, ByteOrder.hton]
  | little =>
    apply BitVec.eq_of_toNat_eq
    have hswap := (htons .little x).isLt
    generalize htons .little x = y at hswap
    have hwide : y.toNat % 2 ^ 32 = y.toNat := Nat.mod_eq_of_lt (by omega)
    have hhigh : y.toNat / 256 / 256 = 0 := by omega
    simp only [ntohl, ByteOrder.hton, ByteOrder.bswap, BitVec.toNat_setWidth, BitVec.toNat_ofNat,
      leBytes, List.reverse_cons, List.reverse_nil, List.nil_append, List.cons_append, leNat,
      UInt8.toNat_ofNat', reduceCtorEq, if_false, hwide, hhigh]
    omega

namespace CmConData

/-- The attributes of a side whose buffer has the length `len`. -/
def withLen (a : CmConData) (len : BitVec 64) : CmConData :=
  { a with mrs := { a.mrs with len := len } }

/-- `local_con_data`, from the attributes of the side that sends it. -/
def encode (o : ByteOrder) (a : CmConData) : CmConData where
  lid := htons o a.lid
  gid := a.gid
  qpNum := htonl o a.qpNum
  mrs := ⟨htonl o a.mrs.rkey, htonll o a.mrs.addr, htonll o a.mrs.len⟩

/-- `remote_con_data`, from `tmp_con_data`. The `lid` is widened for `ntohl` and cut again. -/
def decode (o : ByteOrder) (tmp : CmConData) : CmConData where
  lid := (ntohl o (tmp.lid.setWidth 32)).setWidth 16
  gid := tmp.gid
  qpNum := ntohl o tmp.qpNum
  mrs := ⟨ntohl o tmp.mrs.rkey, ntohll o tmp.mrs.addr, ntohll o tmp.mrs.len⟩

/-- The packed record in the memory of a host. -/
def toBytes (o : ByteOrder) (r : CmConData) : Bytes :=
  o.store 2 r.lid ++ r.gid.toList ++ o.store 4 r.qpNum ++ o.store 4 r.mrs.rkey ++
    o.store 8 r.mrs.addr ++ o.store 8 r.mrs.len

def ofBytes (o : ByteOrder) (bs : Bytes) : CmConData where
  lid := o.load 2 (field bs 0 2)
  gid := Vector.ofFn fun i => bs.getD (2 + i) 0
  qpNum := o.load 4 (field bs 18 4)
  mrs := ⟨o.load 4 (field bs 22 4), o.load 8 (field bs 26 8), o.load 8 (field bs 34 8)⟩

@[simp] theorem length_toBytes (o : ByteOrder) (r : CmConData) :
    (r.toBytes o).length = cmConDataSize := by
  simp [toBytes, cmConDataSize]

theorem ofBytes_toBytes (o : ByteOrder) (r : CmConData) : ofBytes o (r.toBytes o) = r := by
  obtain ⟨lid, gid, qpNum, rkey, addr, len⟩ := r
  simp only [ofBytes, toBytes, CmConData.mk.injEq, CmMrData.mk.injEq]
  refine ⟨?lid, ?gid, ?qpNum, ?rkey, ?addr, ?len⟩
  case lid =>
    rw [← List.nil_append (o.store 2 lid)]
    simp only [List.append_assoc (_ ++ o.store 2 lid)]
    exact o.load_field (k := 2) lid rfl
  case gid =>
    ext i hi
    have hgid : i < gid.toList.length := by simpa using hi
    simp [List.getElem?_append_right, List.getElem?_append_left hgid, hi]
  case qpNum =>
    simp only [List.append_assoc (_ ++ o.store 4 qpNum)]
    exact o.load_field (k := 4) qpNum (by simp)
  case rkey =>
    simp only [List.append_assoc (_ ++ o.store 4 rkey)]
    exact o.load_field (k := 4) rkey (by simp)
  case addr =>
    exact o.load_field (k := 8) addr (by simp)
  case len =>
    rw [← List.append_nil (_ ++ o.store 8 len)]
    exact o.load_field (k := 8) len (by simp)

/-- `res->remote_props` of a side whose peer has the attributes `a`. -/
def remoteProps (o : ByteOrder) (a : CmConData) : CmConData :=
  decode o (ofBytes o ((encode o a).toBytes o))

/-- Every field but the `lid` arrives on either kind of host. -/
theorem remoteProps_eq (o : ByteOrder) (a : CmConData) :
    remoteProps o a = { a with lid := if o = .big then a.lid else 0#16 } := by
  rw [remoteProps, ofBytes_toBytes]
  simp only [decode, encode, ntohl_htons, ntohl_htonl, ntohll_htonll]

/-- The record survives the exchange on big-endian hosts, and elsewhere when there is no `lid`
to lose. -/
theorem remoteProps_exact_iff (o : ByteOrder) (a : CmConData) :
    remoteProps o a = a ↔ o = .big ∨ a.lid = 0 := by
  rw [remoteProps_eq]
  constructor
  · intro h
    by_cases ho : o = .big
    · exact .inl ho
    · have hlid := congrArg CmConData.lid h
      rw [if_neg ho] at hlid
      exact .inr hlid.symm
  · rintro (rfl | hlid)
    · rfl
    · ext1
      · simp [hlid]
      all_goals rfl

/-- The port with `lid` 1 of a little-endian host. -/
def portOne : CmConData := ⟨1, .replicate 16 0, 17, ⟨4096, 65536, 67125248⟩⟩

theorem portOne_loses_lid :
    remoteProps .little portOne ≠ portOne ∧ (remoteProps .little portOne).lid = 0 := by
  have h : (remoteProps .little portOne).lid = 0 := by rw [remoteProps_eq]; rfl
  refine ⟨fun heq => ?_, h⟩
  rw [heq] at h
  exact absurd h (by decide)

end CmConData
end ScpRdma.Connection
