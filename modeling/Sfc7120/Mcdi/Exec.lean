import Sfc7120.Mcdi.Framing

/-! `sfc7120_mcdi_exec`: post a request, poll the mailbox with exponential backoff, and read the
response. The MC is a parameter: what the mailbox holds at each poll. -/
namespace Sfc7120.Mcdi

open BitFields ByteMemory

/-- The MCDI part of `sfc7120_softc_t`. -/
structure Softc where
  mcdiInitialized : Bool
  mcdiSeq : BitVec 8
  mcdiNewEpoch : Bool
  mcdiBuf : Mailbox

/-- One call's result. `outUsed` is `none` when `*out_used` is not written. -/
structure ExecResult where
  rc : Option Errno
  out : List Byte
  outUsed : Option ℕ
  deriving DecidableEq

/-- `sfc7120_mcdi_xlate_err`. -/
def xlateErr (mcErr : BitVec 32) : Option Errno :=
  match mcErr.toNat with
  | 0 => none
  | 1 => some .EPERM
  | 2 => some .ENOENT
  | 4 => some .EINTR
  | 5 => some Errno.EIO
  | 11 => some .EAGAIN
  | 12 => some .ENOMEM
  | 13 => some .EACCES
  | 16 => some .EBUSY
  | 22 => some .EINVAL
  | 38 => some .ENOSYS
  | 62 => some .ETIMEDOUT
  | 95 => some .EOPNOTSUPP
  | _ => some Errno.EIO

/-- `sfc7120_mcdi_poll_response`. -/
def pollResponse (m : Mailbox) : Bool := hdrResponse (readDword m 0) != 0

def mcdiPollMinUs : ℕ := 10
def mcdiPollMaxUs : ℕ := 100 * 1000
def mcdiTimeoutUs : ℕ := 10 * 1000 * 1000

/-- Time waited so far and the next delay. -/
structure Backoff where
  totalUs : ℕ
  delayUs : ℕ
  deriving DecidableEq

def Backoff.first : Backoff := ⟨0, mcdiPollMinUs⟩

def Backoff.next (b : Backoff) : Backoff :=
  ⟨b.totalUs + b.delayUs, if mcdiPollMaxUs < b.delayUs * 2 then mcdiPollMaxUs else b.delayUs * 2⟩

def Backoff.expired (b : Backoff) : Bool := decide (mcdiTimeoutUs ≤ b.totalUs)

/-- Polls before the loop gives up. -/
def pollLimit : ℕ := 114

/-- The poll loop: the index of the first poll that sees a response, none on timeout. -/
def pollLoop (responds : ℕ → Bool) : ℕ → ℕ → Backoff → Option ℕ
  | 0, _, _ => none
  | fuel + 1, k, b =>
      if responds k then some k
      else if b.expired then none
      else pollLoop responds fuel (k + 1) b.next

/-- The response length as `exec` reads it, in the framing of the request. -/
def respDatalen (m : Mailbox) (off : ℕ) : ℕ :=
  if off = mcdiV2HeaderLen then (extLen (readDword m mcdiHeaderLen)).toNat
  else (hdrDatalen (readDword m 0)).toNat

/-- The part of `exec` after the poll loop saw a response. -/
def readResponse (m : Mailbox) (off : ℕ) (seq : BitVec 8) (out : List Byte) : ExecResult :=
  let header := readDword m 0
  let datalen := respDatalen m off
  if hdrSeq header ≠ seq.setWidth 32 then ⟨some .EPROTO, out, none⟩
  else if hdrError header ≠ 0 then
    ⟨xlateErr (if 4 ≤ datalen then readDword m off else 0), out, none⟩
  else if 0 < out.length then
    let copy := if datalen < out.length then datalen else out.length
    ⟨none, bufReadPayload m off copy ++ List.replicate (out.length - copy) 0, some copy⟩
  else ⟨none, out, some 0⟩

/-- Every way out of the locked part advances epoch and sequence number. -/
def Softc.advance (sc : Softc) (m : Mailbox) : Softc :=
  { sc with mcdiBuf := m, mcdiNewEpoch := false, mcdiSeq := (sc.mcdiSeq + 1) &&& 0xf }

def execAccepts (sc : Softc) (inp out : List Byte) : Option Errno :=
  if !sc.mcdiInitialized then some Errno.ENXIO
  else if mcdiPayloadLenMaxV1 < inp.length ∨ mcdiPayloadLenMaxV1 < out.length then some .EINVAL
  else none

def Softc.seq (sc : Softc) : BitVec 8 := sc.mcdiSeq &&& 0xf

/-- `mc k m` is the mailbox at poll `k` when `m` was posted. -/
def exec (mc : ℕ → Mailbox → Mailbox) (sc : Softc) (cmd : BitVec 32) (inp out : List Byte) :
    Softc × ExecResult :=
  match execAccepts sc inp out with
  | some e => (sc, ⟨some e, out, none⟩)
  | none =>
      let posted := sendLocked sc.mcdiBuf cmd inp sc.seq sc.mcdiNewEpoch
      match pollLoop (fun k => pollResponse (mc k posted)) pollLimit 0 Backoff.first with
      | none => (sc.advance (mc (pollLimit - 1) posted), ⟨some .ETIMEDOUT, out, none⟩)
      | some k =>
          (sc.advance (mc k posted),
            readResponse (mc k posted) (payloadOff cmd inp.length) sc.seq out)

/-- An MC that lets `j` polls pass and then writes its answer over the request. -/
def answerAt (j : ℕ) (frame : List Byte) (k : ℕ) (m : Mailbox) : Mailbox :=
  if k < j then m else writeBytes m 0 frame

theorem xlateErr_eq_none_iff {c : BitVec 32} : xlateErr c = none ↔ c = 0 := by
  constructor
  · intro h
    by_contra hc
    have hne : c.toNat ≠ 0 := fun h0 => hc (BitVec.eq_of_toNat_eq (by simpa using h0))
    unfold xlateErr at h
    split at h <;> simp_all
  · rintro rfl
    rfl

/-- The loop makes `pollLimit` polls: the time limit is reached at the last and not before. -/
theorem backoff_expired_iff : ∀ k < pollLimit,
    (Backoff.next^[k] Backoff.first).expired = true ↔ k = pollLimit - 1 := by decide +kernel

theorem pollLoop_eq {responds : ℕ → Bool} {j : ℕ} (hresp : responds j = true)
    (hearly : ∀ k < j, responds k = false) :
    ∀ {fuel k : ℕ}, k ≤ j → j < k + fuel → k + fuel = pollLimit →
      pollLoop responds fuel k (Backoff.next^[k] Backoff.first) = some j := by
  intro fuel
  induction fuel with
  | zero => omega
  | succ fuel ih =>
    intro k hk hj hfuel
    rw [pollLoop]
    rcases Nat.eq_or_lt_of_le hk with rfl | hlt
    · rw [if_pos hresp]
    · have hexp : (Backoff.next^[k] Backoff.first).expired = false := by
        rw [Bool.eq_false_iff]
        intro h
        have hlast := (backoff_expired_iff k (by omega)).mp h
        omega
      rw [if_neg (by simp [hearly k hlt]), if_neg (by simp [hexp]),
        ← Function.iterate_succ_apply' Backoff.next]
      exact ih (by omega) (by omega) (by omega)

/-- What an answer means to a caller with this output buffer. -/
def Response.result (r : Response) (out : List Byte) : ExecResult :=
  if hdrError r.hdr ≠ 0 then
    ⟨xlateErr (if 4 ≤ r.payload.length then dwordOf (r.payload.take 4) else 0), out, none⟩
  else
    ⟨none, r.payload.take out.length ++ List.replicate (out.length - r.payload.length) 0,
      some (min r.payload.length out.length)⟩

/-- Offset of the payload in either framing. -/
def frameOff (v2 : Bool) : ℕ := if v2 then mcdiV2HeaderLen else mcdiHeaderLen

section
variable (m : Mailbox) (v2 : Bool) (r : Response)

theorem readDword_frame : readDword (writeBytes m 0 (r.frame v2)) 0 = r.hdr := by
  rw [Response.frame, List.append_assoc]
  exact readDword_frame_zero m r.hdr _

theorem readBytes_frame {n : ℕ} (hn : n ≤ r.payload.length) :
    readBytes (writeBytes m 0 (r.frame v2)) (frameOff v2) n = r.payload.take n := by
  unfold Response.frame frameOff
  cases v2 with
  | true =>
    exact readBytes_request m (dwordBytes r.hdr ++ dwordBytes r.ext) hn
  | false =>
    simp only [Bool.false_eq_true, if_false, List.append_nil]
    exact readBytes_request m (dwordBytes r.hdr) hn

theorem respDatalen_frame {seq : BitVec 32} (h : r.answers v2 seq = true) :
    respDatalen (writeBytes m 0 (r.frame v2)) (frameOff v2) = r.payload.length := by
  have hhdr := readDword_frame m v2 r
  unfold respDatalen frameOff
  unfold Response.answers at h
  cases v2 with
  | true =>
    simp only [if_true, Bool.and_eq_true, beq_iff_eq] at h ⊢
    unfold Response.frame
    simp only [if_true, mcdiHeaderLen, readDword_frame_four]
    exact h.2.2
  | false =>
    simp only [Bool.false_eq_true, if_false, Bool.and_eq_true, beq_iff_eq] at h ⊢
    rw [if_neg (by decide), hhdr]
    exact h.2

/-- Reading an answer gives what the answer says and nothing of what the mailbox held before. -/
theorem readResponse_frame {seq : BitVec 8} (out : List Byte)
    (h : r.answers v2 (seq.setWidth 32) = true) :
    readResponse (writeBytes m 0 (r.frame v2)) (frameOff v2) seq out = r.result out := by
  have hseq : hdrSeq r.hdr = seq.setWidth 32 := by
    simp only [Response.answers, Bool.and_eq_true, beq_iff_eq] at h
    exact h.1.2
  have hlen := respDatalen_frame m v2 r h
  unfold readResponse Response.result
  simp only [readDword_frame, hlen, hseq, ne_eq, not_true_eq_false, if_false, bufReadPayload_eq]
  by_cases herr : hdrError r.hdr = 0
  · simp only [herr, not_true_eq_false, if_false]
    rcases Nat.eq_zero_or_pos out.length with hout | hout
    · simp [List.length_eq_zero_iff.mp hout]
    · rw [if_pos hout]
      rcases Nat.lt_or_ge r.payload.length out.length with hlt | hge
      · rw [if_pos hlt, readBytes_frame m v2 r le_rfl, List.take_of_length_le le_rfl,
          List.take_of_length_le hlt.le, Nat.min_eq_left hlt.le]
      · rw [if_neg (by omega), readBytes_frame m v2 r hge, Nat.min_eq_right hge, Nat.sub_self,
          Nat.sub_eq_zero_of_le hge]
  · simp only [herr, not_false_eq_true, if_true]
    by_cases hcode : 4 ≤ r.payload.length
    · rw [if_pos hcode, if_pos hcode, readDword, readBytes_frame m v2 r hcode]
    · rw [if_neg hcode, if_neg hcode]

end

theorem payloadOff_eq (cmd : BitVec 32) (inLen : ℕ) :
    payloadOff cmd inLen = frameOff (useV2 cmd inLen) := rfl

theorem pollResponse_sendLocked (m : Mailbox) (cmd : BitVec 32) (inp : List Byte) (seq : BitVec 8)
    (newEpoch : Bool) : pollResponse (sendLocked m cmd inp seq newEpoch) = false := by
  rw [sendLocked_eq, requestBytes, pollResponse, List.append_assoc, readDword_frame_zero,
    hdrResponse_v1Hdr]
  rfl

theorem pollResponse_frame (m : Mailbox) {v2 : Bool} {r : Response} {seq : BitVec 32}
    (h : r.answers v2 seq = true) : pollResponse (writeBytes m 0 (r.frame v2)) = true := by
  simp only [Response.answers, Bool.and_eq_true, beq_iff_eq] at h
  rw [pollResponse, readDword_frame, h.1.1]
  rfl

/-- An answer that arrives within the time limit is what the call returns. -/
theorem exec_answered {sc : Softc} {cmd : BitVec 32} {inp out : List Byte} {r : Response} {j : ℕ}
    (haccepts : execAccepts sc inp out = none) (hj : j < pollLimit)
    (h : r.answers (useV2 cmd inp.length) (sc.seq.setWidth 32) = true) :
    exec (answerAt j (r.frame (useV2 cmd inp.length))) sc cmd inp out =
      (sc.advance (writeBytes (sendLocked sc.mcdiBuf cmd inp sc.seq sc.mcdiNewEpoch) 0
        (r.frame (useV2 cmd inp.length))), r.result out) := by
  have hpoll : pollLoop (fun k => pollResponse (answerAt j (r.frame (useV2 cmd inp.length)) k
      (sendLocked sc.mcdiBuf cmd inp sc.seq sc.mcdiNewEpoch))) pollLimit 0 Backoff.first =
      some j := by
    refine pollLoop_eq (k := 0) ?_ (fun k hk => ?_) (Nat.zero_le _) (by omega) (by omega)
    · simpa [answerAt] using pollResponse_frame _ h
    · simpa [answerAt, hk] using pollResponse_sendLocked _ cmd inp sc.seq sc.mcdiNewEpoch
  have hmail : ∀ m, answerAt j (r.frame (useV2 cmd inp.length)) j m =
      writeBytes m 0 (r.frame (useV2 cmd inp.length)) := by
    intro m
    rw [answerAt, if_neg (lt_irrefl j)]
  simp only [exec, haccepts, hpoll, hmail]
  rw [payloadOff_eq, readResponse_frame _ _ r out h]

/-- Framing round trip, for every command code of the format, every request and output buffer
that fit the mailbox, every earlier mailbox content, sequence number and epoch state. -/
theorem mcdi_framing_round_trip {cmd : BitVec 32} {inp out : List Byte}
    (hcmd : cmd.toNat < 2 ^ 15)
    (hinp : payloadOff cmd inp.length + inp.length ≤ mailboxLen)
    (hout : payloadOff cmd inp.length + out.length ≤ mailboxLen) :
    (∀ (m : Mailbox) (seq : BitVec 8) (newEpoch : Bool), seq.toNat < 2 ^ 4 →
      decodeRequest (sendLocked m cmd inp seq newEpoch) =
        ⟨cmd, inp.length, inp, seq.setWidth 32, notEpochBit newEpoch⟩ ∧
      readBytes (sendLocked m cmd inp seq newEpoch) (payloadOff cmd inp.length + inp.length)
        (padLen inp.length) = List.replicate (padLen inp.length) 0) ∧
    ∀ (sc : Softc) (r : Response) (j : ℕ), sc.mcdiInitialized = true → j < pollLimit →
      r.answers (useV2 cmd inp.length) (sc.seq.setWidth 32) = true → hdrError r.hdr = 0 →
      (exec (answerAt j (r.frame (useV2 cmd inp.length))) sc cmd inp out).2 =
        ⟨none, r.payload.take out.length ++ List.replicate (out.length - r.payload.length) 0,
          some (min r.payload.length out.length)⟩ := by
  constructor
  · intro m seq newEpoch hseq
    exact ⟨decodeRequest_sendLocked m newEpoch hcmd hseq hinp,
      sendLocked_padding m cmd inp seq newEpoch⟩
  · intro sc r j hinit hj hanswers herr
    have hoff : mcdiHeaderLen ≤ payloadOff cmd inp.length := by
      unfold payloadOff
      split <;> decide
    have haccepts : execAccepts sc inp out = none := by
      simp only [mailboxLen] at hinp hout
      rw [execAccepts, if_neg (by simp [hinit]), if_neg (by omega)]
    rw [exec_answered haccepts hj hanswers, Response.result, if_neg (by simp [herr])]

/-- A v2 request of 30 bytes (`VADAPTOR_ALLOC`'s length) and a 5-byte answer into an 8-byte
buffer. -/
theorem mcdi_framing_round_trip_vadaptor :
    (exec (answerAt 3 (Response.frame true ⟨0x0080007f, 0x00050098, [1, 2, 3, 4, 5]⟩))
      ⟨true, 0, true, fun _ => 0xff⟩ 0x98 (List.replicate 30 7) (List.replicate 8 9)).2 =
      ⟨none, [1, 2, 3, 4, 5, 0, 0, 0], some 5⟩ := by
  have hinp : payloadOff 0x98 (List.replicate 30 (7 : Byte)).length +
      (List.replicate 30 (7 : Byte)).length ≤ mailboxLen := by decide
  have hout : payloadOff 0x98 (List.replicate 30 (7 : Byte)).length +
      (List.replicate 8 (9 : Byte)).length ≤ mailboxLen := by decide
  have h := (mcdi_framing_round_trip (by decide) hinp hout).2 ⟨true, 0, true, fun _ => 0xff⟩
    ⟨0x0080007f, 0x00050098, [1, 2, 3, 4, 5]⟩ 3 rfl (by decide) (by decide) (by decide)
  exact h

end Sfc7120.Mcdi
