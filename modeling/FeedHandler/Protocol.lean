import FeedHandler.Foundation.LittleEndian

/-!
# The wire protocol (`protocol.hpp`)

A `WireMessage` is a union of the packed structs `AddOrderMsg`, `CancelOrderMsg` and `ExecuteOrderMsg`: 34 bytes
that each variant reads at its own offsets.  The header (type, sequence number, timestamp, order id) lies at the
same offsets in all three.  A variant that was written is read back as it was (`add_ofAdd` and its siblings).

```
  offset   0     1..8    9..16        17..24    25     26..29         30..33
  add      type  seqNo   timestampNs  orderId   side   price          quantity
  cancel   type  seqNo   timestampNs  orderId   quantity (25..28)
  exec     type  seqNo   timestampNs  orderId   execQuantity (25..28) matchPrice (29..32)
```
-/

namespace FeedHandler

/-- Add Order Message (`'A'`). -/
structure AddOrderMsg where
  msgType : UInt8
  seqNo : UInt64
  timestampNs : UInt64
  orderId : UInt64
  side : UInt8
  price : Int32
  quantity : Int32
deriving DecidableEq, Repr

/-- Cancel / Modify Order Message (`'X'`); `quantity` is the new remaining quantity. -/
structure CancelOrderMsg where
  msgType : UInt8
  seqNo : UInt64
  timestampNs : UInt64
  orderId : UInt64
  quantity : Int32
deriving DecidableEq, Repr

/-- Order Execution / Fill Message (`'E'`). -/
structure ExecuteOrderMsg where
  msgType : UInt8
  seqNo : UInt64
  timestampNs : UInt64
  orderId : UInt64
  execQuantity : Int32
  matchPrice : Int32
deriving DecidableEq, Repr

structure WireMessage where
  bytes : Vector UInt8 34
deriving DecidableEq, Repr

namespace WireMessage

/-- The value of the `n` bytes at offset `off`. -/
def field (m : WireMessage) (off n : Nat) : Nat := LittleEndian.decode ((m.bytes.toList.drop off).take n)

def u64 (m : WireMessage) (off : Nat) : UInt64 := UInt64.ofNat (m.field off 8)

def i32 (m : WireMessage) (off : Nat) : Int32 := Int32.ofBitVec (BitVec.ofNat 32 (m.field off 4))

/-! ### The members of the union -/

def msgType (m : WireMessage) : UInt8 := m.bytes[0]

def add (m : WireMessage) : AddOrderMsg where
  msgType := m.bytes[0]
  seqNo := m.u64 1
  timestampNs := m.u64 9
  orderId := m.u64 17
  side := m.bytes[25]
  price := m.i32 26
  quantity := m.i32 30

def cancel (m : WireMessage) : CancelOrderMsg where
  msgType := m.bytes[0]
  seqNo := m.u64 1
  timestampNs := m.u64 9
  orderId := m.u64 17
  quantity := m.i32 25

def exec (m : WireMessage) : ExecuteOrderMsg where
  msgType := m.bytes[0]
  seqNo := m.u64 1
  timestampNs := m.u64 9
  orderId := m.u64 17
  execQuantity := m.i32 25
  matchPrice := m.i32 29

def seqNo (m : WireMessage) : UInt64 := m.add.seqNo

def timestampNs (m : WireMessage) : UInt64 := m.add.timestampNs

def orderId (m : WireMessage) : UInt64 := m.add.orderId

/-! The header is the same in all variants. -/

theorem cancel_orderId (m : WireMessage) : m.cancel.orderId = m.orderId := rfl
theorem cancel_seqNo (m : WireMessage) : m.cancel.seqNo = m.seqNo := rfl
theorem exec_orderId (m : WireMessage) : m.exec.orderId = m.orderId := rfl
theorem exec_seqNo (m : WireMessage) : m.exec.seqNo = m.seqNo := rfl

/-- Computes expected wire struct size based on msgType; `0` if unknown type. -/
def expectedSize (type : UInt8) : Nat :=
  if type = 'A'.toUInt8 then 34
  else if type = 'X'.toUInt8 then 29
  else if type = 'E'.toUInt8 then 33
  else 0

theorem expectedSize_le (type : UInt8) : expectedSize type ≤ 34 := by
  unfold expectedSize
  split_ifs <;> omega

/-- Validates if this wire message holds valid memory invariants. -/
def isValid (m : WireMessage) : Bool :=
  if m.msgType = 'A'.toUInt8 then
    (m.add.side = 'B'.toUInt8 || m.add.side = 'S'.toUInt8) && m.add.price > 0 && m.add.quantity > 0
  else if m.msgType = 'X'.toUInt8 then
    m.cancel.quantity ≥ 0
  else if m.msgType = 'E'.toUInt8 then
    m.exec.execQuantity > 0 && m.exec.matchPrice > 0
  else
    false

@[simp] theorem cancelType_ne_addType : 'X'.toUInt8 ≠ 'A'.toUInt8 := by decide

@[simp] theorem execType_ne_addType : 'E'.toUInt8 ≠ 'A'.toUInt8 := by decide

@[simp] theorem execType_ne_cancelType : 'E'.toUInt8 ≠ 'X'.toUInt8 := by decide

theorem isValid_type {m : WireMessage} (h : m.isValid = true) :
    m.msgType = 'A'.toUInt8 ∨ m.msgType = 'X'.toUInt8 ∨ m.msgType = 'E'.toUInt8 := by
  by_contra hne
  rw [not_or, not_or] at hne
  obtain ⟨hA, hX, hE⟩ := hne
  simp [isValid, hA, hX, hE] at h

theorem isValid_add {m : WireMessage} (h : m.isValid = true) (hm : m.msgType = 'A'.toUInt8) :
    (m.add.side = 'B'.toUInt8 ∨ m.add.side = 'S'.toUInt8) ∧ 0 < m.add.price ∧ 0 < m.add.quantity := by
  simpa [isValid, hm, and_assoc] using h

theorem isValid_cancel {m : WireMessage} (h : m.isValid = true) (hm : m.msgType = 'X'.toUInt8) :
    0 ≤ m.cancel.quantity := by
  simpa [isValid, hm] using h

theorem isValid_exec {m : WireMessage} (h : m.isValid = true) (hm : m.msgType = 'E'.toUInt8) :
    0 < m.exec.execQuantity ∧ 0 < m.exec.matchPrice := by
  simpa [isValid, hm] using h

/-! ### Copying bytes -/

/-- `WireMessage{}` -/
def zero : WireMessage := ⟨Vector.replicate 34 0⟩

/-- `memcpy(&msg, bytes, n)`: the first bytes are written over, as many as there are. -/
def memcpy (m : WireMessage) (bytes : List UInt8) : WireMessage := ⟨Vector.ofFn fun i => bytes.getD i (m.bytes.get i)⟩

theorem getElem_memcpy (m : WireMessage) (bytes : List UInt8) {i : Nat} (h : i < 34) :
    (m.memcpy bytes).bytes[i] = bytes.getD i m.bytes[i] := by
  simp [memcpy]
  rfl

/-- The bytes written. -/
theorem take_memcpy (m : WireMessage) {bytes : List UInt8} {n : Nat} (h : n ≤ 34) (hn : n ≤ bytes.length) :
    (m.memcpy bytes).bytes.toList.take n = bytes.take n := by
  apply List.ext_getElem
  · simp
    omega
  · intro i hi hi'
    have hlt : i < bytes.length := by
      rw [List.length_take] at hi'
      omega
    have hlt' : i < 34 := by
      rw [List.length_take] at hi'
      omega
    rw [List.getElem_take, List.getElem_take, Vector.getElem_toList, getElem_memcpy m bytes hlt',
      List.getD_eq_getElem?_getD, List.getElem?_eq_getElem hlt, Option.getD_some]

/-! ### Writing a variant

`WireMessage msg{}; msg.add = a;` and its siblings: the bytes of the variant, then zeros up to the end of the
union. -/

private def header (msgType : UInt8) (seqNo timestampNs orderId : UInt64) : List UInt8 :=
  msgType :: (LittleEndian.encode 8 seqNo.toNat ++ LittleEndian.encode 8 timestampNs.toNat ++
    LittleEndian.encode 8 orderId.toNat)

private def i32Bytes (v : Int32) : List UInt8 := LittleEndian.encode 4 v.toBitVec.toNat

def ofAdd (a : AddOrderMsg) : WireMessage :=
  ⟨⟨⟨header a.msgType a.seqNo a.timestampNs a.orderId ++ [a.side] ++ i32Bytes a.price ++ i32Bytes a.quantity⟩,
    by simp [header, i32Bytes]⟩⟩

def ofCancel (c : CancelOrderMsg) : WireMessage :=
  ⟨⟨⟨header c.msgType c.seqNo c.timestampNs c.orderId ++ i32Bytes c.quantity ++ List.replicate 5 0⟩,
    by simp [header, i32Bytes]⟩⟩

def ofExec (e : ExecuteOrderMsg) : WireMessage :=
  ⟨⟨⟨header e.msgType e.seqNo e.timestampNs e.orderId ++ i32Bytes e.execQuantity ++ i32Bytes e.matchPrice ++ [0]⟩,
    by simp [header, i32Bytes]⟩⟩

private theorem u64_of_field {m : WireMessage} {off : Nat} {v : UInt64}
    (h : m.field off 8 = LittleEndian.decode (LittleEndian.encode 8 v.toNat)) : m.u64 off = v := by
  have hlt : v.toNat < 256 ^ 8 := v.toNat_lt
  rw [u64, h, LittleEndian.decode_encode, Nat.mod_eq_of_lt hlt, UInt64.ofNat_toNat]

private theorem i32_of_field {m : WireMessage} {off : Nat} {v : Int32}
    (h : m.field off 4 = LittleEndian.decode (i32Bytes v)) : m.i32 off = v := by
  have hlt : v.toBitVec.toNat < 256 ^ 4 := v.toBitVec.isLt
  rw [i32, h, i32Bytes, LittleEndian.decode_encode, Nat.mod_eq_of_lt hlt, BitVec.ofNat_toNat, BitVec.setWidth_eq]
  rfl

@[simp] theorem msgType_ofAdd (a : AddOrderMsg) : (ofAdd a).msgType = a.msgType := rfl
@[simp] theorem msgType_ofCancel (c : CancelOrderMsg) : (ofCancel c).msgType = c.msgType := rfl
@[simp] theorem msgType_ofExec (e : ExecuteOrderMsg) : (ofExec e).msgType = e.msgType := rfl

/-- A variant is read back as it was written. -/
@[simp] theorem add_ofAdd (a : AddOrderMsg) : (ofAdd a).add = a := by
  have hseqNo : (ofAdd a).u64 1 = a.seqNo := u64_of_field rfl
  have htimestampNs : (ofAdd a).u64 9 = a.timestampNs := u64_of_field rfl
  have horderId : (ofAdd a).u64 17 = a.orderId := u64_of_field rfl
  have hprice : (ofAdd a).i32 26 = a.price := i32_of_field rfl
  have hquantity : (ofAdd a).i32 30 = a.quantity := i32_of_field rfl
  rw [add, hseqNo, htimestampNs, horderId, hprice, hquantity]
  rfl

@[simp] theorem cancel_ofCancel (c : CancelOrderMsg) : (ofCancel c).cancel = c := by
  have hseqNo : (ofCancel c).u64 1 = c.seqNo := u64_of_field rfl
  have htimestampNs : (ofCancel c).u64 9 = c.timestampNs := u64_of_field rfl
  have horderId : (ofCancel c).u64 17 = c.orderId := u64_of_field rfl
  have hquantity : (ofCancel c).i32 25 = c.quantity := i32_of_field rfl
  rw [cancel, hseqNo, htimestampNs, horderId, hquantity]
  rfl

@[simp] theorem exec_ofExec (e : ExecuteOrderMsg) : (ofExec e).exec = e := by
  have hseqNo : (ofExec e).u64 1 = e.seqNo := u64_of_field rfl
  have htimestampNs : (ofExec e).u64 9 = e.timestampNs := u64_of_field rfl
  have horderId : (ofExec e).u64 17 = e.orderId := u64_of_field rfl
  have hexecQuantity : (ofExec e).i32 25 = e.execQuantity := i32_of_field rfl
  have hmatchPrice : (ofExec e).i32 29 = e.matchPrice := i32_of_field rfl
  rw [exec, hseqNo, htimestampNs, horderId, hexecQuantity, hmatchPrice]
  rfl

end WireMessage

end FeedHandler
