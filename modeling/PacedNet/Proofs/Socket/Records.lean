import PacedNet.Proofs.Socket.Delivery
import PacedNet.Proofs.Text.Cutting
import PacedNet.Socket.Receive

/-!
# Records on the wire

Records travel with a separator between every two of them, and are split at every separator on the
other side. So a wire is split into the one list of records that it is the wire of: a list that is
not empty, of records without a separator in them (`splitRecords_eq_iff`). Every run of octets is
the wire of such a list, the empty run that of a single empty record. A list without any record has
the same wire, which is why it does not come back.
-/

namespace PacedNet

variable {parts : List (List UInt8)} {octets : List UInt8}

namespace Payload

theorem encode_records (parts : List (List UInt8)) :
    (records parts).encode = [recordSeparator].intercalate parts := rfl

theorem length_records (parts : List (List UInt8)) :
    (records parts).length = parts.flatten.length := rfl

/-- One separator stands between a record and those behind it. -/
theorem encode_cons_cons (record next : List UInt8) (rest : List (List UInt8)) :
    (records (record :: next :: rest)).encode
      = record ++ recordSeparator :: (records (next :: rest)).encode := by
  rw [encode_records, encode_records, List.intercalate_cons_cons, List.append_assoc,
    List.singleton_append]

theorem length_records_cons (record : List UInt8) (rest : List (List UInt8)) :
    (records (record :: rest)).length = record.length + (records rest).length := by
  rw [length_records, length_records, List.flatten_cons, List.length_append]

/-- A wire is longer than its payload by one separator less than there are records. -/
theorem length_encode (parts : List (List UInt8)) :
    (records parts).encode.length = (records parts).length + (parts.length - 1) := by
  induction parts with
  | nil => rfl
  | cons record rest ih =>
      rw [length_records_cons]
      cases rest with
      | nil =>
          -- a single record goes as it is
          rw [encode_records, List.intercalate_singleton]
          rfl
      | cons next rest =>
          rw [encode_cons_cons, List.length_append, List.length_cons, ih]
          simp only [List.length_cons]
          omega

end Payload

/-! ## There and back -/

theorem splitRecords_encode (hne : parts ≠ [])
    (hparts : ∀ record ∈ parts, recordSeparator ∉ record) :
    splitRecords (Payload.records parts).encode = parts :=
  List.splitOn_intercalate recordSeparator hparts hne

theorem encode_splitRecords (octets : List UInt8) :
    (Payload.records (splitRecords octets)).encode = octets :=
  List.intercalate_splitOn recordSeparator

/-- **A wire is split into the records that it is the wire of**, and into no others. -/
theorem splitRecords_eq_iff : splitRecords octets = parts ↔
    parts ≠ [] ∧ (∀ record ∈ parts, recordSeparator ∉ record)
      ∧ (Payload.records parts).encode = octets := by
  constructor
  · intro h
    subst h
    exact ⟨List.splitOn_ne_nil recordSeparator octets,
      fun record hrecord => (Text.mem_splitOn hrecord).1, encode_splitRecords octets⟩
  · intro ⟨hne, hparts, hwire⟩
    subst hwire
    exact splitRecords_encode hne hparts

/-! ## Receiving records -/

/-- A receive of records is a receive of data whose answer is split. -/
theorem Socket.run_receiveRecords {K : Type} [Kernel K] {s : Socket} {m m' : Machine K}
    (h : s.receiveData.run m = (.ok octets, m')) :
    s.receiveRecords.run m = (.ok (splitRecords octets), m') := by
  unfold receiveRecords
  rw [run_bind_of_ok h]
  rfl

/-- **Records come back as they were sent**, empty ones too, if there is one at least and none has a
separator in it: a receive that takes their wire answers with them. Any octets are the wire of what
they are split into, and the wire of a list has one octet between every two records. -/
theorem Payload.records_come_back :
    (∀ parts : List (List UInt8), parts ≠ [] → (∀ record ∈ parts, recordSeparator ∉ record) →
        splitRecords (records parts).encode = parts
          ∧ ∀ {K : Type} [Kernel K] {s : Socket} {m m' : Machine K},
            s.receiveData.run m = (.ok (records parts).encode, m') →
            s.receiveRecords.run m = (.ok parts, m'))
      ∧ (∀ octets, (records (splitRecords octets)).encode = octets)
      ∧ ∀ parts : List (List UInt8),
          (records parts).encode.length = (records parts).length + (parts.length - 1) := by
  refine ⟨fun parts hne hparts => ?_, encode_splitRecords, length_encode⟩
  have hsplit := splitRecords_encode hne hparts
  refine ⟨hsplit, fun h => ?_⟩
  rw [Socket.run_receiveRecords h, hsplit]

/-- Two letters, nothing, and one letter lie before an end of a stream. -/
def threeRecords : Machine Host :=
  Machine.start (Kernel.send 0 [97, 98, recordSeparator, recordSeparator, 99] 0 none Host.pair).2

theorem Payload.records_come_back_three :
    splitRecords (records [[97, 98], [], [99]]).encode = [[97, 98], [], [99]]
      ∧ ∃ m', (Socket.endOf 1 none).receiveRecords.run threeRecords
        = (.ok [[97, 98], [], [99]], m') := by
  obtain ⟨hback, -, -⟩ := Payload.records_come_back
  obtain ⟨hsplit, hreceive⟩ := hback [[97, 98], [], [99]] (by decide) (by decide)
  exact ⟨hsplit, _, hreceive (s := Socket.endOf 1 none) (m := threeRecords) rfl⟩

end PacedNet
