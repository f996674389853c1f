import ScpRdma.Foundations.Bytes

/-!
# Byte order

A host stores an integer of `k` bytes in its own order; the network order is the big-endian
one. `hton` serves in both directions, for every width.
-/
namespace ScpRdma.Foundations

inductive ByteOrder where
  | little
  | big
  deriving DecidableEq, Repr

theorem leBytes_leNat (bs : Bytes) : leBytes bs.length (leNat bs) = bs := by
  induction bs with
  | nil => rfl
  | cons b bs ih =>
    have hb := b.toNat_lt
    have hmod : (b.toNat + 256 * leNat bs) % 256 = b.toNat := by omega
    have hdiv : (b.toNat + 256 * leNat bs) / 256 = leNat bs := by omega
    simp only [List.length_cons, leBytes, leNat, hmod, hdiv, ih, UInt8.ofNat_toNat]

namespace ByteOrder

/-- The bytes of an integer as they stand in the memory of a host. -/
def store (o : ByteOrder) (k : Nat) (x : BitVec (8 * k)) : Bytes :=
  match o with
  | .little => leBytes k x.toNat
  | .big => (leBytes k x.toNat).reverse

def load (o : ByteOrder) (k : Nat) (bs : Bytes) : BitVec (8 * k) :=
  match o with
  | .little => BitVec.ofNat _ (leNat bs)
  | .big => BitVec.ofNat _ (leNat bs.reverse)

/-- The integer whose bytes stand the other way round. -/
def bswap (k : Nat) (x : BitVec (8 * k)) : BitVec (8 * k) :=
  BitVec.ofNat _ (leNat (leBytes k x.toNat).reverse)

/-- Between the order of the host and that of the network. -/
def hton (o : ByteOrder) (k : Nat) (x : BitVec (8 * k)) : BitVec (8 * k) :=
  match o with
  | .little => bswap k x
  | .big => x

variable {k : Nat}

@[simp] theorem length_store (o : ByteOrder) (x : BitVec (8 * k)) :
    (o.store k x).length = k := by cases o <;> simp [store]

theorem pow_width (k : Nat) : 256 ^ k = 2 ^ (8 * k) := by rw [Nat.pow_mul]

theorem ofNat_leBytes (x : BitVec (8 * k)) : BitVec.ofNat _ (leNat (leBytes k x.toNat)) = x := by
  rw [leNat_leBytes_of_lt (pow_width k ▸ x.isLt), BitVec.ofNat_toNat, BitVec.setWidth_eq]

@[simp] theorem load_store (o : ByteOrder) (x : BitVec (8 * k)) :
    o.load k (o.store k x) = x := by
  cases o with
  | little => exact ofNat_leBytes x
  | big => simpa only [load, store, List.reverse_reverse] using ofNat_leBytes x

/-- Reading one field of a packed record. -/
theorem load_field (o : ByteOrder) (x : BitVec (8 * k)) {pre post : Bytes} {off : Nat}
    (h : pre.length = off) : o.load k (field (pre ++ o.store k x ++ post) off k) = x := by
  rw [field_append h (o.length_store x), load_store]

theorem bswap_bswap (x : BitVec (8 * k)) : bswap k (bswap k x) = x := by
  have hlen : (leBytes k x.toNat).reverse.length = k := by simp
  have hlt := leNat_lt (leBytes k x.toNat).reverse
  rw [hlen, pow_width] at hlt
  have hback := leBytes_leNat (leBytes k x.toNat).reverse
  rw [hlen] at hback
  rw [bswap, bswap, BitVec.toNat_ofNat, Nat.mod_eq_of_lt hlt, hback, List.reverse_reverse]
  exact ofNat_leBytes x

@[simp] theorem hton_hton (o : ByteOrder) (x : BitVec (8 * k)) : o.hton k (o.hton k x) = x := by
  cases o with
  | little => exact bswap_bswap x
  | big => rfl

end ByteOrder

end ScpRdma.Foundations
