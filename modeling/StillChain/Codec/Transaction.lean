import StillChain.Codec.Bytes

/-
The wire form of a transaction (`transaction/transaction.go`): the sender's public key, the recipient's address and
the signature as fixed byte arrays, then the subaddress, nonce, amount and fee as uvarints.

Results:
- `tx_roundtrip`: `Deserialize` reads back every transaction `Serialize` wrote, with no error, whatever
  follows it.
- `truncated_tx_accepted`: 128 fixed bytes and one byte `80` deserialize with no error to a transaction whose
  serialization is not a prefix of the input: the uvarint cut short is read as 0 four times.
-/

namespace StillChain

/-- `Transaction.Serialize` -/
def Transaction.serialize (t : Transaction) : List UInt8 :=
  (Ser.new
    |>.addFixedByteArray (arrayBytes 32 t.sender)
    |>.addFixedByteArray (arrayBytes 32 t.recipient)
    |>.addFixedByteArray (arrayBytes 64 t.signature)
    |>.addUvarint t.subaddr
    |>.addUvarint t.nonce
    |>.addUvarint t.amount
    |>.addUvarint t.fee).output

/-- the reads of `Transaction.Deserialize`, in order -/
def readTransaction : DesM Transaction := do
  let sender ← readFixedByteArray 32
  let recipient ← readFixedByteArray 32
  let signature ← readFixedByteArray 64
  let subaddr ← readUvarint
  let nonce ← readUvarint
  let amount ← readUvarint
  let fee ← readUvarint
  pure ⟨arrayOfBytes 32 sender, arrayOfBytes 32 recipient, arrayOfBytes 64 signature, nonce, amount, fee, subaddr⟩

/-- `Transaction.Deserialize`: the transaction read from `data`, and the cursor whose `Error()` it returns -/
def Transaction.deserialize (data : List UInt8) : EStateM.Result Fault Des Transaction :=
  readTransaction (Des.new data)

/-- the bytes of `Serialize`, field after field -/
theorem Transaction.serialize_eq (t : Transaction) :
    t.serialize = arrayBytes 32 t.sender ++ (arrayBytes 32 t.recipient ++ (arrayBytes 64 t.signature ++
      (appendUvarint t.subaddr ++ (appendUvarint t.nonce ++ (appendUvarint t.amount ++ appendUvarint t.fee))))) := by
  simp [Transaction.serialize]

/-- the reads of `Deserialize` take back what `Serialize` wrote -/
theorem readTransaction_serialize (t : Transaction) (rest : List UInt8) :
    readTransaction ⟨t.serialize ++ rest, none⟩ = .ok t ⟨rest, none⟩ := by
  simp only [readTransaction, readFixedByteArray, t.serialize_eq, List.append_assoc]
  rw [bind_of_ok (readFixed_append (arrayBytes_length 32 _)), bind_of_ok (readFixed_append (arrayBytes_length 32 _)),
    bind_of_ok (readFixed_append (arrayBytes_length 64 _)), bind_of_ok (readUvarint_append _ _),
    bind_of_ok (readUvarint_append _ _), bind_of_ok (readUvarint_append _ _), bind_of_ok (readUvarint_append _ _)]
  simp only [id, arrayOfBytes_arrayBytes, List.nil_append]
  rfl

/-- **Transactions round-trip.** -/
theorem tx_roundtrip (t : Transaction) (rest : List UInt8) :
    Transaction.deserialize (t.serialize ++ rest) = .ok t ⟨rest, none⟩ :=
  readTransaction_serialize t rest

/-- a transaction is 128 fixed bytes and four uvarints of at most ten bytes -/
theorem Transaction.serialize_length_le (t : Transaction) : t.serialize.length ≤ 168 := by
  have h1 := appendUvarint_length_le t.subaddr
  have h2 := appendUvarint_length_le t.nonce
  have h3 := appendUvarint_length_le t.amount
  have h4 := appendUvarint_length_le t.fee
  simp only [maxVarintLen64] at h1 h2 h3 h4
  simp only [Transaction.serialize_eq, List.length_append, arrayBytes_length]
  omega

/-- a zero sender, recipient and signature, then a uvarint byte `80` that announces another byte and is the last -/
def truncatedTx : List UInt8 := List.replicate 32 0 ++ (List.replicate 32 0 ++ (List.replicate 64 0 ++ [0x80]))

theorem arrayOfBytes_zeros (n : Nat) : arrayOfBytes n (List.replicate n 0) = 0 := by
  simp [arrayOfBytes]

theorem truncated_tx_accepted :
    Transaction.deserialize truncatedTx = .ok ⟨0, 0, 0, 0, 0, 0, 0⟩ ⟨[0x80], none⟩ ∧
      ¬(Transaction.serialize ⟨0, 0, 0, 0, 0, 0, 0⟩ <+: truncatedTx) := by
  have hcut : readUvarint ⟨[0x80], none⟩ = .ok 0 ⟨[0x80], none⟩ := readUvarint_truncated (by decide) (by decide)
  refine ⟨?_, fun h => absurd h.length_le ?_⟩
  · simp only [Transaction.deserialize, Des.new, truncatedTx, readTransaction, readFixedByteArray]
    rw [bind_of_ok (readFixed_append (List.length_replicate _ _)),
      bind_of_ok (readFixed_append (List.length_replicate _ _)),
      bind_of_ok (readFixed_append (List.length_replicate _ _)), bind_of_ok hcut, bind_of_ok hcut, bind_of_ok hcut,
      bind_of_ok hcut]
    simp only [id, arrayOfBytes_zeros]
    rfl
  · simp [Transaction.serialize_eq, appendUvarint_of_lt, truncatedTx]

end StillChain
