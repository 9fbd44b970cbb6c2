/-
This file compares the frame decoder with the grammar of the frames.
-/

import FramaCMcp.Construction.Transport

namespace FramaCMcp.Codec

open Hexadecimal

/-- The letter goes with so many digits that declare an allowed length. -/
def IsHeader (letter : Byte) (digits : List Byte) (length : Nat) : Prop :=
  hexLen letter = some digits.length ∧ IsDigits digits ∧ value digits = length ∧
    length ≤ maxFramePayloadBytes

/-- A frame is a header with exactly the declared bytes behind it. -/
def IsFrame (frame payload : List Byte) : Prop :=
  ∃ letter digits, IsHeader letter digits payload.length ∧ frame = letter :: digits ++ payload

/-- A complete header does not have a plus sign in front of its digits. -/
def Unsigned (buf : List Byte) : Prop :=
  ∀ letter digits rest, buf = letter :: digits ++ rest → hexLen letter = some digits.length →
    digits.head? ≠ some 43

theorem hexLen_cases {letter : Byte} {width : Nat} (known : hexLen letter = some width) :
    width = 3 ∨ width = 7 ∨ width = 15 := by
  unfold hexLen at known
  split_ifs at known
  · exact .inl (Option.some.inj known).symm
  · exact .inr (.inl (Option.some.inj known).symm)
  · exact .inr (.inr (Option.some.inj known).symm)

theorem fromUtf8_ascii (bytes : List Byte) (ascii : ∀ byte ∈ bytes, byte.toNat < 128) :
    ∃ text, fromUtf8 bytes = some text := by
  have valid : ByteArray.IsValidUTF8 ⟨bytes.toArray⟩ := by
    induction bytes using List.reverseRecOn with
    | nil => exact (String.isValidUTF8 "")
    | append_singleton before byte ih =>
        have earlier := ih fun other member => ascii other (List.mem_append_left _ member)
        have small := ascii byte (by simp)
        have size : (Char.ofUInt8 byte).utf8Size = 1 := by
          rw [Char.utf8Size_eq_one_iff, UInt32.le_iff_toNat_le]
          show byte.toUInt32.toNat ≤ 127
          rw [UInt8.toNat_toUInt32]
          omega
        have same : (Char.ofUInt8 byte).toUInt8 = byte := by
          show byte.toUInt32.toUInt8 = byte
          simp
        have pushed := earlier.push size
        rw [same] at pushed
        rw [← List.push_toArray]
        exact pushed
  rw [fromUtf8, String.fromUTF8?, dif_pos valid]
  exact ⟨_, rfl⟩

theorem fromUtf8_asBytes (text : String) : fromUtf8 (asBytes text) = some text := by
  have valid : ByteArray.IsValidUTF8 ⟨(asBytes text).toArray⟩ := by
    simpa [asBytes] using text.isValidUTF8
  rw [fromUtf8, String.fromUTF8?, dif_pos valid, Option.some.injEq, ← String.toByteArray_inj]
  simp [asBytes]
  rfl

theorem fromUtf8_eq_some {bytes : List Byte} {text : String} (read : fromUtf8 bytes = some text) :
    asBytes text = bytes := by
  rw [fromUtf8, String.fromUTF8?] at read
  split_ifs at read
  obtain rfl := Option.some.inj read
  rfl

theorem isDigits_ascii {bytes : List Byte} (digits : IsDigits bytes) :
    ∀ byte ∈ bytes, byte.toNat < 128 := by
  intro byte member
  have digit := digits byte member
  unfold toDigit at digit
  split_ifs at digit <;> first | omega | cases digit

/-- A complete header is judged by its digits alone. -/
theorem decodeFrame_header {letter : Byte} {digits rest : List Byte}
    (known : hexLen letter = some digits.length) (unsigned : digits.head? ≠ some 43)
    (isDigits : IsDigits digits) : decodeFrame (letter :: digits ++ rest) =
      decodePayload (1 + digits.length) (value digits) (letter :: digits ++ rest) := by
  have widths := hexLen_cases known
  have nonempty : digits ≠ [] := by
    intro empty
    rw [empty] at widths
    simp at widths
  have number := fromStrRadix_eq digits nonempty (by omega) unsigned
  rw [if_pos isDigits] at number
  obtain ⟨text, read⟩ := fromUtf8_ascii digits (isDigits_ascii isDigits)
  rw [List.cons_append, decodeFrame, known]
  simp only [List.length_append, List.take_left]
  rw [if_neg (by omega)]
  simp only [read, number]

theorem decodeFrame_notDigits {letter : Byte} {digits rest : List Byte}
    (known : hexLen letter = some digits.length) (unsigned : digits.head? ≠ some 43)
    (bad : ¬ IsDigits digits) : ∃ error, decodeFrame (letter :: digits ++ rest) = .error error := by
  have widths := hexLen_cases known
  have nonempty : digits ≠ [] := by
    intro empty
    exact bad (by simp [empty, IsDigits])
  have number := fromStrRadix_eq digits nonempty (by omega) unsigned
  rw [if_neg bad] at number
  rw [List.cons_append, decodeFrame, known]
  simp only [List.length_append, List.take_left]
  rw [if_neg (by omega)]
  simp only [number]
  cases fromUtf8 digits with
  | none => exact ⟨_, rfl⟩
  | some text => exact ⟨_, rfl⟩

/-- The payload is what stands behind the header. -/
theorem decodePayload_eq (letter : Byte) (digits rest : List Byte) (length : Nat) :
    decodePayload (1 + digits.length) length (letter :: digits ++ rest) =
      if maxFramePayloadBytes < length then .error (.overLimit length)
      else if rest.length < length then .ok none
      else
        match fromUtf8 (rest.take length) with
        | none => .error .payloadNotUtf8
        | some payload => .ok (some (payload, 1 + digits.length + length)) := by
  have behind : (letter :: digits ++ rest).drop (1 + digits.length) = rest := by
    rw [Nat.add_comm, List.cons_append, List.drop_succ_cons, List.drop_left]
  have shorter : (letter :: digits ++ rest).length < 1 + digits.length + length ↔
      rest.length < length := by
    rw [List.length_append, List.length_cons]
    omega
  rw [decodePayload, behind]
  exact if_congr Iff.rfl rfl (if_congr shorter rfl rfl)

/-- These are the results of the grammar: more bytes are needed for a short header and for a short
payload, and a frame whose payload is a text is taken. -/
inductive Decodes : List Byte → Except FrameError (Option (String × Nat)) → Prop where
  | empty : Decodes [] (.ok none)
  | unknown {letter : Byte} {rest : List Byte} (other : hexLen letter = none) :
      Decodes (letter :: rest) (.error (.unexpectedPrefix letter))
  | shortHeader {letter : Byte} {rest : List Byte} {width : Nat}
      (known : hexLen letter = some width) (short : rest.length < width) :
      Decodes (letter :: rest) (.ok none)
  | notDigits {letter : Byte} {digits rest : List Byte} {error : FrameError}
      (known : hexLen letter = some digits.length) (bad : ¬ IsDigits digits)
      (refused : decodeFrame (letter :: digits ++ rest) = .error error) :
      Decodes (letter :: digits ++ rest) (.error error)
  | overLimit {letter : Byte} {digits rest : List Byte}
      (known : hexLen letter = some digits.length) (isDigits : IsDigits digits)
      (beyond : maxFramePayloadBytes < value digits) :
      Decodes (letter :: digits ++ rest) (.error (.overLimit (value digits)))
  | shortPayload {letter : Byte} {digits rest : List Byte} {length : Nat}
      (header : IsHeader letter digits length) (short : rest.length < length) :
      Decodes (letter :: digits ++ rest) (.ok none)
  | notText {frame payload rest : List Byte} (isFrame : IsFrame frame payload)
      (bad : fromUtf8 payload = none) : Decodes (frame ++ rest) (.error .payloadNotUtf8)
  | whole {frame rest : List Byte} {payload : String} (isFrame : IsFrame frame (asBytes payload)) :
      Decodes (frame ++ rest) (.ok (some (payload, frame.length)))

theorem decodes_sound {buf : List Byte} {result : Except FrameError (Option (String × Nat))}
    (decodes : Decodes buf result) : decodeFrame buf = result := by
  cases decodes with
  | empty => rfl
  | unknown other => rw [decodeFrame, other]
  | shortHeader known short => rw [decodeFrame, known]; simp only [if_pos short]
  | notDigits known bad refused => exact refused
  | overLimit known isDigits beyond =>
      rw [decodeFrame_header known (isDigits_unsigned _ isDigits) isDigits, decodePayload_eq,
        if_pos beyond]
  | shortPayload header short =>
      obtain ⟨known, isDigits, rfl, fits⟩ := header
      rw [decodeFrame_header known (isDigits_unsigned _ isDigits) isDigits, decodePayload_eq,
        if_neg (by omega), if_pos short]
  | @notText frame payload rest isFrame bad =>
      obtain ⟨letter, digits, ⟨known, isDigits, length, fits⟩, rfl⟩ := isFrame
      rw [List.append_assoc, decodeFrame_header known (isDigits_unsigned _ isDigits) isDigits,
        decodePayload_eq, length, if_neg (by omega), if_neg (by simp), List.take_left, bad]
  | @whole frame rest payload isFrame =>
      obtain ⟨letter, digits, ⟨known, isDigits, length, fits⟩, rfl⟩ := isFrame
      rw [List.append_assoc, decodeFrame_header known (isDigits_unsigned _ isDigits) isDigits,
        decodePayload_eq, length, if_neg (by omega), if_neg (by simp), List.take_left,
        fromUtf8_asBytes]
      simp only [List.length_append, List.length_cons]
      rw [Nat.add_comm 1]

/-- Without a sign every buffer has a result of the grammar. -/
theorem decodes_total (buf : List Byte) (unsigned : Unsigned buf) :
    Decodes buf (decodeFrame buf) := by
  have found : ∃ result, Decodes buf result := by
    cases buf with
    | nil => exact ⟨_, .empty⟩
    | cons letter tail =>
        cases known : hexLen letter with
        | none => exact ⟨_, .unknown known⟩
        | some width =>
            by_cases short : tail.length < width
            · exact ⟨_, .shortHeader known short⟩
            have taken : (tail.take width).length = width := by
              rw [List.length_take]
              omega
            have split : letter :: tail = letter :: tail.take width ++ tail.drop width := by
              rw [List.cons_append, List.take_append_drop]
            rw [← taken] at known
            have plain := unsigned letter _ _ split known
            rw [split]
            by_cases isDigits : IsDigits (tail.take width)
            · by_cases beyond : maxFramePayloadBytes < value (tail.take width)
              · exact ⟨_, .overLimit known isDigits beyond⟩
              by_cases less : (tail.drop width).length < value (tail.take width)
              · exact ⟨_, .shortPayload ⟨known, isDigits, rfl, by omega⟩ less⟩
              have enough : ((tail.drop width).take (value (tail.take width))).length =
                  value (tail.take width) := by
                rw [List.length_take]
                omega
              have whole : IsFrame (letter :: tail.take width ++
                  (tail.drop width).take (value (tail.take width)))
                  ((tail.drop width).take (value (tail.take width))) :=
                ⟨letter, tail.take width, ⟨known, isDigits, enough.symm, by omega⟩, rfl⟩
              have rest : letter :: tail.take width ++ tail.drop width =
                  letter :: tail.take width ++ (tail.drop width).take (value (tail.take width)) ++
                    (tail.drop width).drop (value (tail.take width)) := by
                rw [List.append_assoc, List.take_append_drop]
              rw [rest]
              cases read : fromUtf8 ((tail.drop width).take (value (tail.take width))) with
              | none => exact ⟨_, .notText whole read⟩
              | some text =>
                  rw [← fromUtf8_eq_some read] at whole ⊢
                  exact ⟨_, .whole whole⟩
            · obtain ⟨error, refused⟩ := decodeFrame_notDigits known plain isDigits
              exact ⟨_, .notDigits known isDigits refused⟩
  obtain ⟨result, decodes⟩ := found
  rwa [decodes_sound decodes]

/-- The written header declares the length of the payload. -/
theorem header_isHeader (length : Nat) (fits : length ≤ maxFramePayloadBytes) :
    ∃ letter digits, header length = letter :: digits ∧ IsHeader letter digits length := by
  have written : ∀ letter width, hexLen letter = some width → length < 16 ^ width →
      IsHeader letter (format width length) length := by
    intro letter width known bound
    refine ⟨?_, isDigits_format width length, value_format width length, fits⟩
    rw [length_format width length bound, known]
  unfold header
  split_ifs with short long
  · exact ⟨83, _, rfl, written 83 3 rfl (by omega)⟩
  · exact ⟨76, _, rfl, written 76 7 rfl (by omega)⟩
  · have limit : maxFramePayloadBytes < 16 ^ 15 := by decide
    exact ⟨87, _, rfl, written 87 15 rfl (by omega)⟩

theorem encodeFrame_isFrame (payload : String)
    (fits : (asBytes payload).length ≤ maxFramePayloadBytes) :
    IsFrame (encodeFrame payload) (asBytes payload) := by
  obtain ⟨letter, digits, written, isHeader⟩ := header_isHeader _ fits
  exact ⟨letter, digits, isHeader, by rw [encodeFrame, written]⟩

/-- A proper prefix of a frame asks for more. -/
theorem decodeFrame_prefix {frame payload before after : List Byte} (isFrame : IsFrame frame payload)
    (split : frame = before ++ after) (more : after ≠ []) : decodeFrame before = .ok none := by
  obtain ⟨letter, digits, header, shape⟩ := isFrame
  have missing := List.length_pos_iff.mpr more
  cases before with
  | nil => exact decodes_sound .empty
  | cons first rest =>
      rw [shape] at split
      simp only [List.cons_append] at split
      obtain ⟨same, tail⟩ := List.cons.inj split
      subst same
      rcases List.append_eq_append_iff.mp tail with ⟨body, front, back⟩ | ⟨body, front, back⟩
      · have length := congrArg List.length back
        rw [List.length_append] at length
        rw [front]
        exact decodes_sound (.shortPayload header (by omega))
      · by_cases complete : body = []
        · subst complete
          rw [List.append_nil] at front
          rw [List.nil_append] at back
          rw [← front, ← List.append_nil digits]
          refine decodes_sound (.shortPayload header ?_)
          rw [← back, List.length_nil]
          exact missing
        · have length := congrArg List.length front
          have positive := List.length_pos_iff.mpr complete
          rw [List.length_append] at length
          exact decodes_sound (.shortHeader header.1 (by omega))

/-- A frame that is not a text is refused, and a short header is not judged by its digits. -/
theorem decodeFrame_not_exact :
    (¬ ∀ buf, (∃ payload consumed, decodeFrame buf = .ok (some (payload, consumed))) ↔
      ∃ frame payload rest, IsFrame frame payload ∧ buf = frame ++ rest) ∧
    ¬ ∀ buf, decodeFrame buf = .ok none ↔
      ∃ frame payload rest, IsFrame frame payload ∧ rest ≠ [] ∧ frame = buf ++ rest := by
  constructor
  · intro claim
    have isFrame : IsFrame [83, 48, 48, 49, 255] [255] :=
      ⟨83, [48, 48, 49], by unfold IsHeader; decide +kernel, rfl⟩
    obtain ⟨payload, consumed, decoded⟩ :=
      (claim [83, 48, 48, 49, 255]).mpr ⟨_, _, [], isFrame, rfl⟩
    have refused : decodeFrame [83, 48, 48, 49, 255] = .error .payloadNotUtf8 := by decide
    rw [refused] at decoded
    cases decoded
  · intro claim
    obtain ⟨frame, payload, rest, isFrame, _, split⟩ := (claim [83, 122, 122]).mp (by decide)
    obtain ⟨letter, digits, ⟨known, isDigits, _⟩, shape⟩ := isFrame
    rw [shape, List.cons_append, List.cons_append] at split
    obtain ⟨rfl, tail⟩ := List.cons.inj split
    have width : digits.length = 3 := (Option.some.inj known).symm
    cases digits with
    | nil => cases width
    | cons first others =>
        have same : first = 122 := (List.cons.inj tail).1
        have digit := isDigits first List.mem_cons_self
        rw [same] at digit
        revert digit
        decide

/-- Without a sign in the header the results are those of the grammar: a frame whose payload is a
text is taken whole, more is needed exactly where the header or the payload is short, and an error
has one of four causes. A proper prefix of a frame asks for more and a written frame is read back. -/
theorem decodeFrame_grammar :
    (∀ buf, Unsigned buf →
      (∀ payload consumed, decodeFrame buf = .ok (some (payload, consumed)) ↔
        ∃ frame rest, buf = frame ++ rest ∧ IsFrame frame (asBytes payload) ∧
          consumed = frame.length) ∧
      (decodeFrame buf = .ok none ↔ buf = [] ∨
        (∃ letter rest width, buf = letter :: rest ∧ hexLen letter = some width ∧
          rest.length < width) ∨
        ∃ letter digits rest length, buf = letter :: digits ++ rest ∧
          IsHeader letter digits length ∧ rest.length < length) ∧
      ((∃ error, decodeFrame buf = .error error) ↔
        (∃ letter rest, buf = letter :: rest ∧ hexLen letter = none) ∨
        (∃ letter digits rest, buf = letter :: digits ++ rest ∧
          hexLen letter = some digits.length ∧
          (¬ IsDigits digits ∨ maxFramePayloadBytes < value digits)) ∨
        ∃ frame payload rest, buf = frame ++ rest ∧ IsFrame frame payload ∧
          fromUtf8 payload = none)) ∧
    (∀ frame payload before after, IsFrame frame payload → frame = before ++ after → after ≠ [] →
      decodeFrame before = .ok none) ∧
    ∀ payload, (asBytes payload).length ≤ maxFramePayloadBytes →
      decodeFrame (encodeFrame payload) = .ok (some (payload, (encodeFrame payload).length)) := by
  refine ⟨?_, fun _ _ _ _ => decodeFrame_prefix, ?_⟩
  · intro buf unsigned
    have total := decodes_total buf unsigned
    refine ⟨?_, ?_, ?_⟩
    · intro payload consumed
      constructor
      · intro decoded
        rw [decoded] at total
        cases total with
        | @whole frame rest _ isFrame => exact ⟨frame, rest, rfl, isFrame, rfl⟩
      · intro found
        obtain ⟨frame, rest, rfl, isFrame, rfl⟩ := found
        exact decodes_sound (.whole isFrame)
    · constructor
      · intro decoded
        rw [decoded] at total
        cases total with
        | empty => exact .inl rfl
        | @shortHeader letter rest width known short =>
            exact .inr (.inl ⟨letter, rest, width, rfl, known, short⟩)
        | @shortPayload letter digits rest length header short =>
            exact .inr (.inr ⟨letter, digits, rest, length, rfl, header, short⟩)
      · intro shape
        rcases shape with rfl | ⟨letter, rest, width, rfl, known, short⟩ |
          ⟨letter, digits, rest, length, rfl, header, short⟩
        · exact decodes_sound .empty
        · exact decodes_sound (.shortHeader known short)
        · exact decodes_sound (.shortPayload header short)
    · constructor
      · intro decoded
        obtain ⟨error, refused⟩ := decoded
        rw [refused] at total
        cases total with
        | @unknown letter rest other => exact .inl ⟨letter, rest, rfl, other⟩
        | @notDigits letter digits rest _ known bad _ =>
            exact .inr (.inl ⟨letter, digits, rest, rfl, known, .inl bad⟩)
        | @overLimit letter digits rest known _ beyond =>
            exact .inr (.inl ⟨letter, digits, rest, rfl, known, .inr beyond⟩)
        | @notText frame payload rest isFrame bad =>
            exact .inr (.inr ⟨frame, payload, rest, rfl, isFrame, bad⟩)
      · intro shape
        rcases shape with ⟨letter, rest, rfl, other⟩ | ⟨letter, digits, rest, rfl, known, wrong⟩ |
          ⟨frame, payload, rest, rfl, isFrame, bad⟩
        · exact ⟨_, decodes_sound (.unknown other)⟩
        · by_cases isDigits : IsDigits digits
          · exact ⟨_, decodes_sound (.overLimit known isDigits
              (wrong.resolve_left fun bad => bad isDigits))⟩
          · exact decodeFrame_notDigits known (unsigned letter digits rest rfl known) isDigits
        · exact ⟨_, decodes_sound (.notText isFrame bad)⟩
  · intro payload fits
    have whole : Decodes (encodeFrame payload ++ [])
        (.ok (some (payload, (encodeFrame payload).length))) :=
      .whole (encodeFrame_isFrame payload fits)
    rw [List.append_nil] at whole
    exact decodes_sound whole

theorem unsigned_example : Unsigned [83, 48, 48, 49, 65, 66] := by
  intro letter digits rest split known sign
  obtain ⟨first, others, rfl⟩ : ∃ first others, digits = first :: others := by
    cases digits with
    | nil => cases sign
    | cons first others => exact ⟨first, others, rfl⟩
  simp only [List.cons_append, List.cons.injEq] at split
  rw [List.head?_cons, ← split.2.1] at sign
  cases sign

theorem decodeFrame_grammar_example :
    (∃ frame rest, [83, 48, 48, 49, 65, 66] = frame ++ rest ∧ IsFrame frame (asBytes "A") ∧
      5 = frame.length) ∧
    decodeFrame (encodeFrame "A") = .ok (some ("A", (encodeFrame "A").length)) :=
  ⟨((decodeFrame_grammar.1 _ unsigned_example).1 "A" 5).mp (by decide),
    decodeFrame_grammar.2.2 "A" (by decide)⟩

end FramaCMcp.Codec
