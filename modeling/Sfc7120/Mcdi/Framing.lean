import Sfc7120.Lib.BitFields
import Sfc7120.Lib.ByteMemory
import Sfc7120.Basic

/-! MCDI wire format: the dword stores `sfc7120_mcdi_send_locked` makes into the mailbox, a
reference decoder of the documented format, and the frames the MC answers with. -/
namespace Sfc7120.Mcdi

open BitFields ByteMemory

abbrev Mailbox := ℕ → Byte

def mcdiHeaderLen : ℕ := 4
def mcdiV2HeaderLen : ℕ := 8
def mcdiPayloadLenMaxV1 : ℕ := 0xfc
def mcCmdV2Extn : BitVec 32 := 0x7f

/-- Bytes `sfc7120_mcdi_alloc_buf` allocates. -/
def mailboxLen : ℕ := mcdiHeaderLen + mcdiPayloadLenMaxV1

def hdrCode (hdr : BitVec 32) : BitVec 32 := get 0 7 hdr
def hdrDatalen (hdr : BitVec 32) : BitVec 32 := get 8 8 hdr
def hdrSeq (hdr : BitVec 32) : BitVec 32 := get 16 4 hdr
def hdrNotEpoch (hdr : BitVec 32) : BitVec 32 := get 21 1 hdr
def hdrError (hdr : BitVec 32) : BitVec 32 := get 22 1 hdr
def hdrResponse (hdr : BitVec 32) : BitVec 32 := get 23 1 hdr
def extCmd (ext : BitVec 32) : BitVec 32 := get 0 15 ext
def extLen (ext : BitVec 32) : BitVec 32 := get 16 10 ext

def useV2 (cmd : BitVec 32) (inLen : ℕ) : Bool :=
  decide (mcCmdV2Extn ≤ cmd) || decide (mcdiPayloadLenMaxV1 < inLen)

/-- Where the payload starts. -/
def payloadOff (cmd : BitVec 32) (inLen : ℕ) : ℕ :=
  if useV2 cmd inLen then mcdiV2HeaderLen else mcdiHeaderLen

def notEpochBit (newEpoch : Bool) : BitVec 32 := if newEpoch then 0 else 1

/-- The first header word: in v2 framing it only carries the escape code. -/
def v1Hdr (cmd : BitVec 32) (inLen : ℕ) (seq : BitVec 8) (newEpoch : Bool) : BitVec 32 :=
  put 0 7 (if useV2 cmd inLen then mcCmdV2Extn else cmd) |||
    put 8 8 (if useV2 cmd inLen then 0 else BitVec.ofNat 32 inLen) |||
    put 16 4 (seq.setWidth 32) ||| put 21 1 (notEpochBit newEpoch)

def v2Hdr (cmd : BitVec 32) (inLen : ℕ) : BitVec 32 :=
  put 0 15 cmd ||| put 16 10 (BitVec.ofNat 32 inLen)

/-- `mcdi_buf_write_payload`: one dword store per four bytes, then a zero-filled one for the
tail. -/
def bufWritePayload : ℕ → List Byte → List (ℕ × BitVec 32)
  | _, [] => []
  | off, a :: b :: c :: d :: rest =>
      (off, dwordOf [a, b, c, d]) :: bufWritePayload (off + 4) rest
  | off, tail => [(off, dwordOf tail)]

/-- `mcdi_buf_read_payload`. -/
def bufReadPayload (m : Mailbox) : ℕ → ℕ → List Byte
  | _, 0 => []
  | off, len + 4 => dwordBytes (readDword m off) ++ bufReadPayload m (off + 4) len
  | off, tail => (dwordBytes (readDword m off)).take tail

/-- The mailbox stores of `sfc7120_mcdi_send_locked`, in order. -/
def sendWrites (cmd : BitVec 32) (inp : List Byte) (seq : BitVec 8) (newEpoch : Bool) :
    List (ℕ × BitVec 32) :=
  (0, v1Hdr cmd inp.length seq newEpoch) ::
    (if useV2 cmd inp.length then [(mcdiHeaderLen, v2Hdr cmd inp.length)] else []) ++
    bufWritePayload (payloadOff cmd inp.length) inp

def storeDword (m : Mailbox) (w : ℕ × BitVec 32) : Mailbox := writeDword m w.1 w.2

def sendLocked (m : Mailbox) (cmd : BitVec 32) (inp : List Byte) (seq : BitVec 8)
    (newEpoch : Bool) : Mailbox := (sendWrites cmd inp seq newEpoch).foldl storeDword m

/-- What a reader of the documented format sees in a mailbox. -/
structure Request where
  cmd : BitVec 32
  len : ℕ
  payload : List Byte
  seq : BitVec 32
  notEpoch : BitVec 32
  deriving DecidableEq

def decodeRequest (m : Mailbox) : Request :=
  let hdr := readDword m 0
  if hdrCode hdr = mcCmdV2Extn then
    let ext := readDword m mcdiHeaderLen
    let len := (extLen ext).toNat
    ⟨extCmd ext, len, readBytes m mcdiV2HeaderLen len, hdrSeq hdr, hdrNotEpoch hdr⟩
  else
    let len := (hdrDatalen hdr).toNat
    ⟨hdrCode hdr, len, readBytes m mcdiHeaderLen len, hdrSeq hdr, hdrNotEpoch hdr⟩

/-- An answer of the MC. In v1 framing there is no second header word. -/
structure Response where
  hdr : BitVec 32
  ext : BitVec 32
  payload : List Byte
  deriving DecidableEq

def Response.frame (v2 : Bool) (r : Response) : List Byte :=
  dwordBytes r.hdr ++ (if v2 then dwordBytes r.ext else []) ++ r.payload

/-- The answer is a response in the framing of the request, echoes its sequence number, and
states its own length. All other header bits are the MC's business. -/
def Response.answers (v2 : Bool) (seq : BitVec 32) (r : Response) : Bool :=
  hdrResponse r.hdr == 1 && hdrSeq r.hdr == seq &&
    (if v2 then hdrCode r.hdr == mcCmdV2Extn && (extLen r.ext).toNat == r.payload.length
      else (hdrDatalen r.hdr).toNat == r.payload.length)

/-- Zero bytes that fill the last dword of a payload. -/
def padLen (len : ℕ) : ℕ := (4 - len % 4) % 4

def padded (bs : List Byte) : List Byte := bs ++ List.replicate (padLen bs.length) 0

theorem storeDword_foldl_payload (m : Mailbox) (off : ℕ) (bs : List Byte) :
    (bufWritePayload off bs).foldl storeDword m = writeBytes m off (padded bs) := by
  induction off, bs using bufWritePayload.induct generalizing m with
  | case1 off =>
    funext x
    simp [bufWritePayload, padded, padLen, writeBytes]
  | case2 off a b c d rest ih =>
    have hpad : padded (a :: b :: c :: d :: rest) = [a, b, c, d] ++ padded rest := by
      have hmod : padLen (rest.length + 4) = padLen rest.length := by simp [padLen]
      simp [padded, hmod]
    have hword : dwordBytes (dwordOf [a, b, c, d]) = [a, b, c, d] := by
      simpa using dwordBytes_dwordOf (show [a, b, c, d].length ≤ 4 by simp)
    rw [bufWritePayload, List.foldl_cons, ih, hpad, ← writeBytes_append, storeDword, writeDword,
      hword]
    rfl
  | case3 off tail hne hshort =>
    have hlen : tail.length < 4 := by
      rcases tail with _ | ⟨a, _ | ⟨b, _ | ⟨c, _ | ⟨d, rest⟩⟩⟩⟩
      · simp
      · simp
      · simp
      · simp
      · exact absurd rfl (hshort a b c d rest)
    have hpos : tail.length ≠ 0 := by simpa using hne
    have hmod : padLen tail.length = 4 - tail.length := by simp only [padLen]; omega
    rw [bufWritePayload, List.foldl_cons, List.foldl_nil, storeDword, writeDword,
      dwordBytes_dwordOf hlen.le, padded, hmod]
    all_goals assumption

theorem bufReadPayload_eq (m : Mailbox) (off len : ℕ) :
    bufReadPayload m off len = readBytes m off len := by
  induction off, len using bufReadPayload.induct with
  | case1 off => simp [bufReadPayload, readBytes]
  | case2 off len ih =>
    rw [bufReadPayload, ih, dwordBytes_readDword, ← readBytes_add, Nat.add_comm 4 len]
  | case3 off tail hne hshort =>
    have hlt : tail ≤ 4 := by
      by_contra hge
      exact hshort (tail - 4) (by omega)
    rw [bufReadPayload, dwordBytes_readDword, take_readBytes _ _ _ _ hlt]
    all_goals assumption

section
variable (cmd : BitVec 32) (inLen : ℕ) (seq : BitVec 8) (newEpoch : Bool)

theorem hdrCode_v1Hdr : hdrCode (v1Hdr cmd inLen seq newEpoch) =
    (if useV2 cmd inLen then mcCmdV2Extn else cmd) &&& mask 32 7 := by
  simp (disch := decide) [hdrCode, v1Hdr, get_or, get_put, get_put_disjoint]

theorem hdrDatalen_v1Hdr : hdrDatalen (v1Hdr cmd inLen seq newEpoch) =
    (if useV2 cmd inLen then 0 else BitVec.ofNat 32 inLen) &&& mask 32 8 := by
  simp (disch := decide) [hdrDatalen, v1Hdr, get_or, get_put, get_put_disjoint]

theorem hdrSeq_v1Hdr : hdrSeq (v1Hdr cmd inLen seq newEpoch) = seq.setWidth 32 &&& mask 32 4 := by
  simp (disch := decide) [hdrSeq, v1Hdr, get_or, get_put, get_put_disjoint]

theorem hdrNotEpoch_v1Hdr :
    hdrNotEpoch (v1Hdr cmd inLen seq newEpoch) = notEpochBit newEpoch := by
  cases newEpoch <;>
    simp (disch := decide) [hdrNotEpoch, v1Hdr, get_or, get_put, get_put_disjoint, notEpochBit,
      mask]

/-- A request never looks like a response. -/
theorem hdrResponse_v1Hdr : hdrResponse (v1Hdr cmd inLen seq newEpoch) = 0 := by
  simp (disch := decide) [hdrResponse, v1Hdr, get_or, get_put_disjoint]

theorem extCmd_v2Hdr : extCmd (v2Hdr cmd inLen) = cmd &&& mask 32 15 := by
  simp (disch := decide) [extCmd, v2Hdr, get_or, get_put, get_put_disjoint]

theorem extLen_v2Hdr : extLen (v2Hdr cmd inLen) = BitVec.ofNat 32 inLen &&& mask 32 10 := by
  simp (disch := decide) [extLen, v2Hdr, get_or, get_put, get_put_disjoint]

end

/-- A length field wide enough for the length reads back as the length. -/
theorem toNat_ofNat_and_mask {n k : ℕ} (hk : k ≤ 32) (hn : n < 2 ^ k) :
    (BitVec.ofNat 32 n &&& mask 32 k).toNat = n := by
  have hlt : n < 2 ^ 32 := hn.trans_le (Nat.pow_le_pow_right Nat.two_pos hk)
  rw [toNat_and_mask hk, BitVec.toNat_ofNat, Nat.mod_eq_of_lt hlt, Nat.mod_eq_of_lt hn]

/-- The frame of a request: header words and padded payload. -/
def requestBytes (cmd : BitVec 32) (inp : List Byte) (seq : BitVec 8) (newEpoch : Bool) :
    List Byte :=
  dwordBytes (v1Hdr cmd inp.length seq newEpoch) ++
    (if useV2 cmd inp.length then dwordBytes (v2Hdr cmd inp.length) else []) ++ padded inp

theorem sendLocked_eq (m : Mailbox) (cmd : BitVec 32) (inp : List Byte) (seq : BitVec 8)
    (newEpoch : Bool) :
    sendLocked m cmd inp seq newEpoch = writeBytes m 0 (requestBytes cmd inp seq newEpoch) := by
  unfold sendLocked sendWrites requestBytes payloadOff
  cases useV2 cmd inp.length with
  | true =>
    simp only [if_true, List.cons_append, List.nil_append, List.foldl_cons,
      storeDword_foldl_payload]
    rw [← writeBytes_append, ← writeBytes_append]
    rfl
  | false =>
    simp only [Bool.false_eq_true, if_false, List.append_nil, List.cons_append, List.nil_append,
      List.foldl_cons, storeDword_foldl_payload]
    rw [← writeBytes_append]
    rfl

theorem readBytes_request (m : Mailbox) (bs : List Byte) {cs : List Byte} {n : ℕ}
    (h : n ≤ cs.length) :
    readBytes (writeBytes m 0 (bs ++ cs)) bs.length n = cs.take n := by
  have hread := readBytes_writeBytes (m := m) (a := 0) (i := bs.length) (n := n) (bs ++ cs)
    (by rw [List.length_append]; omega)
  simpa using hread

theorem readDword_frame_zero (m : Mailbox) (v : BitVec 32) (rest : List Byte) :
    readDword (writeBytes m 0 (dwordBytes v ++ rest)) 0 = v := by
  have hread := readDword_writeBytes m 0 (dwordBytes v ++ rest) (i := 0) (by simp)
  rw [List.drop_zero, List.take_left' (dwordBytes_length v), dwordOf_dwordBytes] at hread
  exact hread

theorem readDword_frame_four (m : Mailbox) (u v : BitVec 32) (rest : List Byte) :
    readDword (writeBytes m 0 (dwordBytes u ++ dwordBytes v ++ rest)) 4 = v := by
  have hread := readDword_writeBytes m 0 (dwordBytes u ++ (dwordBytes v ++ rest)) (i := 4)
    (by simp only [List.length_append, dwordBytes_length]; omega)
  rw [List.drop_left' (dwordBytes_length u), List.take_left' (dwordBytes_length v),
    dwordOf_dwordBytes] at hread
  simpa using hread

/-- Decoding the mailbox a send leaves gives back the request, whatever was in it before. -/
theorem decodeRequest_sendLocked (m : Mailbox) {cmd : BitVec 32} {inp : List Byte}
    {seq : BitVec 8} (newEpoch : Bool) (hcmd : cmd.toNat < 2 ^ 15) (hseq : seq.toNat < 2 ^ 4)
    (hfit : payloadOff cmd inp.length + inp.length ≤ mailboxLen) :
    decodeRequest (sendLocked m cmd inp seq newEpoch) =
      ⟨cmd, inp.length, inp, seq.setWidth 32, notEpochBit newEpoch⟩ := by
  have hseq' : seq.setWidth 32 &&& mask 32 4 = seq.setWidth 32 := by
    refine and_mask_of_lt ?_
    rw [BitVec.toNat_setWidth]
    omega
  have htake : (padded inp).take inp.length = inp := by simp [padded]
  have hpad : inp.length ≤ (padded inp).length := by simp [padded]
  rw [sendLocked_eq, requestBytes, decodeRequest]
  cases hv2 : useV2 cmd inp.length with
  | true =>
    have hlen : inp.length < 2 ^ 10 := by
      simp only [payloadOff, hv2, if_true, mcdiV2HeaderLen, mailboxLen, mcdiHeaderLen,
        mcdiPayloadLenMaxV1] at hfit
      omega
    have hcode : hdrCode (v1Hdr cmd inp.length seq newEpoch) = mcCmdV2Extn := by
      rw [hdrCode_v1Hdr, hv2, if_pos rfl]
      decide
    have hext : (extLen (v2Hdr cmd inp.length)).toNat = inp.length := by
      rw [extLen_v2Hdr, toNat_ofNat_and_mask (by decide) hlen]
    have hpay := readBytes_request m
      (dwordBytes (v1Hdr cmd inp.length seq newEpoch) ++ dwordBytes (v2Hdr cmd inp.length)) hpad
    simp only [if_true, mcdiHeaderLen, mcdiV2HeaderLen, readDword_frame_four]
    rw [List.append_assoc, readDword_frame_zero, ← List.append_assoc, if_pos hcode, hext,
      extCmd_v2Hdr, and_mask_of_lt hcmd, hdrSeq_v1Hdr, hseq', hdrNotEpoch_v1Hdr]
    rw [htake] at hpay
    exact congrArg (Request.mk _ _ · _ _) hpay
  | false =>
    have hv2' := hv2
    simp only [useV2, Bool.or_eq_false_iff, decide_eq_false_iff_not, BitVec.not_le, not_lt,
      BitVec.lt_def] at hv2'
    have hlow : cmd.toNat < 0x7f := hv2'.1
    have hlen : inp.length < 2 ^ 8 := hv2'.2.trans_lt (by decide)
    have hcode : hdrCode (v1Hdr cmd inp.length seq newEpoch) = cmd := by
      rw [hdrCode_v1Hdr, hv2, if_neg (by decide), and_mask_of_lt (by omega)]
    have hne : cmd ≠ mcCmdV2Extn := by
      rintro rfl
      exact absurd hlow (by decide)
    have hdata : (hdrDatalen (v1Hdr cmd inp.length seq newEpoch)).toNat = inp.length := by
      rw [hdrDatalen_v1Hdr, hv2, if_neg (by decide), toNat_ofNat_and_mask (by decide) hlen]
    have hpay := readBytes_request m (dwordBytes (v1Hdr cmd inp.length seq newEpoch)) hpad
    simp only [Bool.false_eq_true, if_false, List.append_nil, mcdiHeaderLen, readDword_frame_zero]
    rw [hcode, if_neg hne, hdata, hdrSeq_v1Hdr, hseq', hdrNotEpoch_v1Hdr]
    rw [htake] at hpay
    exact congrArg (Request.mk _ _ · _ _) hpay

/-- The rest of the last dword of the payload is zero. -/
theorem sendLocked_padding (m : Mailbox) (cmd : BitVec 32) (inp : List Byte) (seq : BitVec 8)
    (newEpoch : Bool) :
    readBytes (sendLocked m cmd inp seq newEpoch)
      (payloadOff cmd inp.length + inp.length) (padLen inp.length) =
      List.replicate (padLen inp.length) 0 := by
  rw [sendLocked_eq]
  unfold requestBytes payloadOff padded
  rw [← List.append_assoc]
  have hpadding : padLen inp.length ≤ (List.replicate (padLen inp.length) (0 : Byte)).length := by
    simp
  cases useV2 cmd inp.length with
  | true =>
    have hread := readBytes_request m (dwordBytes (v1Hdr cmd inp.length seq newEpoch) ++
      dwordBytes (v2Hdr cmd inp.length) ++ inp) hpadding
    simpa [mcdiV2HeaderLen, ← Nat.add_assoc] using hread
  | false =>
    have hread := readBytes_request m (dwordBytes (v1Hdr cmd inp.length seq newEpoch) ++ inp)
      hpadding
    simpa [mcdiHeaderLen] using hread

end Sfc7120.Mcdi
